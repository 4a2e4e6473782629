import Railgun.Theory.PoiSteps

/-!
# Blocked Shields and Statuses

Blocked shields are replaced as a whole. The statuses of the former ones are
forgotten and the new ones are given theirs, except that a valid commitment
stays valid. Replacing shields by the same ones is therefore no change, as long
as every blocked commitment had a status before. Every run sees to that.

## Main definitions

* `PoiCache.withBlocked`: The cache with some shields blocked.

## Theorems

* `getElem?_status_withBlocked`, `getElem?_status_clearBlocked`: What happens to
  a status.
* `replaceBlockedShields_eq_ok`: What a replacement has done.
* `run_blockedStatuses`: Every run gives blocked commitments a status.
* `refresh_blocked_unchanged`: After any run, the same list once more changes
  nothing.
-/

namespace Railgun

open PoiCache

theorem status_eq_iff {cache : PoiCache} {commitment : Bytes32} {status : PoiStatus}
    (h : status ≠ .missing) :
    cache.status commitment = status ↔
      cache.statusByBlindedCommitment[commitment]? = some status := by
  rw [PoiCache.status]
  cases cache.statusByBlindedCommitment[commitment]? with
  | none => simp only [Option.getD_none, h.symm, reduceCtorEq]
  | some other => rw [Option.getD_some, Option.some.injEq]

theorem getElem?_setStatus (cache : PoiCache) (key : Bytes32) (status : PoiStatus)
    (commitment : Bytes32) :
    (cache.setStatus key status).statusByBlindedCommitment[commitment]?
      = if key = commitment then some status
        else cache.statusByBlindedCommitment[commitment]? :=
  getElem?_insert_key _ _ _ _

/-- Every blocked commitment has been given a status: it is blocked, or valid
    all the same. -/
def BlockedStatuses (cache : PoiCache) : Prop :=
  ∀ commitment, commitment ∈ cache.blockedShieldsByBlindedCommitment →
    cache.status commitment = .valid ∨ cache.status commitment = .shieldBlocked

/-- Blocking a commitment changes its status alone, and not if it is valid. -/
theorem getElem?_status_blockShield (cache : PoiCache) (key : Bytes32) (shield : BlockedShield)
    (commitment : Bytes32) :
    (cache.blockShield key shield).statusByBlindedCommitment[commitment]?
      = if key = commitment ∧ cache.status commitment ≠ .valid then some .shieldBlocked
        else cache.statusByBlindedCommitment[commitment]? := by
  -- Only the map of statuses counts, and the shield is put into the other one.
  change (if cache.status key ≠ .valid then _ else _ :
    PoiCache).statusByBlindedCommitment[commitment]?
    = _
  by_cases hkey : key = commitment
  · subst hkey
    simp only [true_and]
    split
    · exact (getElem?_setStatus _ _ _ _).trans (if_pos rfl)
    · rfl
  · rw [if_neg (show ¬ (key = commitment ∧ _) from fun h => hkey h.1)]
    split
    · exact (getElem?_setStatus _ _ _ _).trans (if_neg hkey)
    · rfl

/-- A loop whose steps give the commitments at hand a value if their statuses pass a
    test does so for all of them, since a status only changes by being given the value. -/
theorem getElem?_status_foldl {α : Type} {next : PoiCache → α → PoiCache} (key : α → Bytes32)
    (test : PoiStatus → Prop) [DecidablePred test] {value : Option PoiStatus}
    {commitment : Bytes32}
    (hstep : ∀ cache a, (next cache a).statusByBlindedCommitment[commitment]?
      = if key a = commitment ∧ test (cache.status commitment) then value
        else cache.statusByBlindedCommitment[commitment]?) (l : List α) (cache : PoiCache) :
    (l.foldl next cache).statusByBlindedCommitment[commitment]?
      = if commitment ∈ l.map key ∧ test (cache.status commitment) then value
        else cache.statusByBlindedCommitment[commitment]? := by
  induction l generalizing cache with
  | nil => rfl
  | cons a l ih =>
    have hfirst := hstep cache a
    rw [List.foldl_cons, ih]
    simp only [List.map_cons, List.mem_cons]
    by_cases hentry : key a = commitment ∧ test (cache.status commitment)
    · rw [if_pos hentry] at hfirst
      rw [if_pos (show (commitment = key a ∨ _) ∧ _ from ⟨Or.inl hentry.1.symm, hentry.2⟩),
        hfirst, ite_self]
    · rw [if_neg hentry] at hfirst
      have hstatus : (next cache a).status commitment = cache.status commitment := by
        rw [PoiCache.status, PoiCache.status, hfirst]
      rw [hstatus, hfirst]
      refine if_congr (and_congr_left fun htest => ?_) rfl rfl
      exact ⟨Or.inr, Or.rec (fun heq => absurd ⟨heq.symm, htest⟩ hentry) id⟩

theorem mem_blockShield (cache : PoiCache) (key : Bytes32) (shield : BlockedShield)
    (commitment : Bytes32) :
    commitment ∈ (cache.blockShield key shield).blockedShieldsByBlindedCommitment ↔
      key = commitment ∨ commitment ∈ cache.blockedShieldsByBlindedCommitment := by
  have hmap : (cache.blockShield key shield).blockedShieldsByBlindedCommitment
      = cache.blockedShieldsByBlindedCommitment.insert key shield := by
    rw [blockShield]
    split <;> rfl
  rw [hmap, Std.ExtTreeMap.mem_insert, Std.LawfulEqCmp.compare_eq_iff_eq]

/-- The cache with blocked shields, one after another. -/
def PoiCache.withBlocked (cache : PoiCache) (shields : List (Bytes32 × BlockedShield)) :
    PoiCache :=
  shields.foldl (fun cache entry => cache.blockShield entry.1 entry.2) cache

/-- The commitments that were not valid are blocked. -/
theorem getElem?_status_withBlocked (shields : List (Bytes32 × BlockedShield))
    (commitment : Bytes32) (cache : PoiCache) :
    (cache.withBlocked shields).statusByBlindedCommitment[commitment]?
      = if commitment ∈ shields.map Prod.fst ∧ cache.status commitment ≠ .valid
        then some .shieldBlocked else cache.statusByBlindedCommitment[commitment]? :=
  getElem?_status_foldl Prod.fst (· ≠ .valid) (fun cache entry =>
    getElem?_status_blockShield cache entry.1 entry.2 commitment) shields cache

/-- The list has the new blocked shields and those it had. -/
theorem mem_withBlocked (shields : List (Bytes32 × BlockedShield)) (commitment : Bytes32)
    (cache : PoiCache) :
    commitment ∈ (cache.withBlocked shields).blockedShieldsByBlindedCommitment ↔
      commitment ∈ shields.map Prod.fst ∨
        commitment ∈ cache.blockedShieldsByBlindedCommitment := by
  induction shields generalizing cache with
  | nil =>
    rw [List.map_nil, or_iff_right List.not_mem_nil]
    rfl
  | cons entry shields ih =>
    rw [withBlocked, List.foldl_cons, ← withBlocked, ih, mem_blockShield,
      List.map_cons, List.mem_cons, eq_comm, or_assoc]
    exact or_left_comm

theorem getElem?_status_clearBlocked (cache : PoiCache) (key commitment : Bytes32) :
    (cache.clearBlocked key).statusByBlindedCommitment[commitment]?
      = if key = commitment ∧ cache.status commitment = .shieldBlocked then none
        else cache.statusByBlindedCommitment[commitment]? := by
  rw [clearBlocked]
  by_cases hkey : key = commitment
  · subst hkey
    simp only [true_and]
    split
    · exact (getElem?_erase_key _ _ _).trans (if_pos rfl)
    · rfl
  · rw [if_neg (show ¬ (key = commitment ∧ _) from fun h => hkey h.1)]
    split
    · exact (getElem?_erase_key _ _ _).trans (if_neg hkey)
    · rfl

/-- Without its blocked shields a cache has forgotten the statuses that only they gave. -/
theorem getElem?_status_withoutBlocked (cache : PoiCache) (commitment : Bytes32) :
    cache.withoutBlocked.statusByBlindedCommitment[commitment]?
      = if commitment ∈ cache.blockedShieldsByBlindedCommitment ∧
          cache.status commitment = .shieldBlocked then none
        else cache.statusByBlindedCommitment[commitment]? := by
  refine (getElem?_status_foldl id (· = .shieldBlocked) (fun cache key =>
    getElem?_status_clearBlocked cache key commitment) _ _).trans ?_
  simp only [List.map_id, Std.ExtTreeMap.mem_keys]
  rfl

/-- Blocking and unblocking shields leaves everything else alone. -/
structure SameLeaves (cache other : PoiCache) : Prop where
  identity : other.identity = cache.identity
  progress : other.progress = cache.progress
  forest : other.forest = cache.forest
  positions : other.positionByBlindedCommitment = cache.positionByBlindedCommitment

theorem SameLeaves.trans {cache other third : PoiCache} (h : SameLeaves cache other)
    (h' : SameLeaves other third) : SameLeaves cache third :=
  ⟨h'.identity.trans h.identity, h'.progress.trans h.progress, h'.forest.trans h.forest,
    h'.positions.trans h.positions⟩

theorem sameLeaves_blockShield (cache : PoiCache) (key : Bytes32) (shield : BlockedShield) :
    SameLeaves cache (cache.blockShield key shield) := by
  rw [blockShield]
  split <;> exact ⟨rfl, rfl, rfl, rfl⟩

theorem sameLeaves_withBlocked (cache : PoiCache) (shields : List (Bytes32 × BlockedShield)) :
    SameLeaves cache (cache.withBlocked shields) := by
  refine List.foldlRecOn _ _ (⟨rfl, rfl, rfl, rfl⟩ : SameLeaves cache cache) ?_
  exact fun _ hreached _ _ => hreached.trans (sameLeaves_blockShield _ _ _)

/-- Clearing statuses leaves everything else alone. -/
theorem clearBlocked_frame (keys : List Bytes32) (cache : PoiCache) :
    SameLeaves cache (keys.foldl clearBlocked cache) ∧
      (keys.foldl clearBlocked cache).blockedShieldsByBlindedCommitment
        = cache.blockedShieldsByBlindedCommitment := by
  refine List.foldlRecOn (motive := fun reached => SameLeaves cache reached ∧
    reached.blockedShieldsByBlindedCommitment = cache.blockedShieldsByBlindedCommitment) _ _
    ⟨⟨rfl, rfl, rfl, rfl⟩, rfl⟩ fun reached hreached key _ => ?_
  have hstep : SameLeaves reached (reached.clearBlocked key) ∧
      (reached.clearBlocked key).blockedShieldsByBlindedCommitment
        = reached.blockedShieldsByBlindedCommitment := by
    rw [clearBlocked]
    split <;> exact ⟨⟨rfl, rfl, rfl, rfl⟩, rfl⟩
  exact ⟨hreached.1.trans hstep.1, hstep.2.trans hreached.2⟩

theorem withoutBlocked_blocked (cache : PoiCache) :
    cache.withoutBlocked.blockedShieldsByBlindedCommitment = ∅ :=
  (clearBlocked_frame _ _).2

section Lists

variable (fromStrRadix : String → Nat → Option U256)

/-- The shields of a list, up to the first whose commitment cannot be read. -/
def readableShields :
    List BlockedShield → List (Bytes32 × BlockedShield)
  | [] => []
  | shield :: shields =>
    match parseFixedHex fromStrRadix shield.blindedCommitment "blockedShield.blindedCommitment" with
    | .ok commitment => (commitment, shield) :: readableShields shields
    | .error _ => []

/-- One step of the loop over the blocked shields. -/
def PoiCache.applyBlockedShield (blockedShield : BlockedShield) : CacheM Unit := do
  let blindedCommitment ← ofExcept (parseFixedHex fromStrRadix blockedShield.blindedCommitment
    "blockedShield.blindedCommitment")
  modify fun cache => { cache with
    blockedShieldsByBlindedCommitment :=
      cache.blockedShieldsByBlindedCommitment.insert blindedCommitment blockedShield }
  modify fun cache =>
    if cache.status blindedCommitment ≠ .valid then
      cache.setStatus blindedCommitment .shieldBlocked
    else
      cache

theorem foldlM_applyBlockedShield (shields : List BlockedShield) (cache : PoiCache) :
    ((shields.foldlM (fun _ => applyBlockedShield fromStrRadix) ()).exec cache).2
      = cache.withBlocked (readableShields fromStrRadix shields) := by
  induction shields generalizing cache with
  | nil => rfl
  | cons shield shields ih =>
    rw [List.foldlM_cons, readableShields]
    cases hparse : parseFixedHex fromStrRadix shield.blindedCommitment
        "blockedShield.blindedCommitment" with
    | error error =>
      have hstep : (applyBlockedShield fromStrRadix shield).exec cache = (.error error, cache) := by
        rw [applyBlockedShield, hparse]
        rfl
      rw [exec_bind, hstep]
      rfl
    | ok commitment =>
      have hstep : (applyBlockedShield fromStrRadix shield).exec cache
          = (.ok (), cache.blockShield commitment shield) := by
        rw [applyBlockedShield, hparse]
        rfl
      rw [exec_bind_of_ok hstep, ih]
      rfl

/-- A list of blocked shields that fails part way has blocked the shields before. -/
theorem applyBlockedShields_snd (shields : List BlockedShield) (cache : PoiCache) :
    ∃ synced, ((applyBlockedShields fromStrRadix shields).exec cache).2
        = { cache.withBlocked (readableShields fromStrRadix shields) with
            progress := { cache.progress with blockedShieldsSynced := synced } } ∧
      ∀ applied, ((applyBlockedShields fromStrRadix shields).exec cache).1 = .ok applied →
        synced = true := by
  have hloop := foldlM_applyBlockedShield fromStrRadix shields cache
  have hprogress := (sameLeaves_withBlocked cache (readableShields fromStrRadix shields)).progress
  have happly : applyBlockedShields fromStrRadix shields
      = (shields.foldlM (fun _ => applyBlockedShield fromStrRadix) () >>= fun _ => do
          modify fun cache => { cache with
            progress := { cache.progress with blockedShieldsSynced := true } }
          return shields.length) := rfl
  rw [happly, exec_bind, ← hprogress, ← hloop]
  cases hresult : (shields.foldlM (fun _ => applyBlockedShield fromStrRadix) ()).exec cache with
  | mk result reached =>
    cases result with
    | error error => exact ⟨reached.progress.blockedShieldsSynced, rfl, nofun⟩
    | ok done => exact ⟨true, rfl, fun _ _ => rfl⟩

variable {fromStrRadix}

/-- What a replacement that succeeds has done. -/
theorem replaceBlockedShields_eq_ok {blockedShields : List BlockedShield}
    {cache cache' : PoiCache} {applied : Nat}
    (hexec : (replaceBlockedShields fromStrRadix blockedShields).exec cache
      = (.ok applied, cache')) :
    ∃ shields, cache' = { cache.withoutBlocked.withBlocked shields with
      progress := { cache.progress with blockedShieldsSynced := true } } := by
  have happly : (applyBlockedShields fromStrRadix blockedShields).exec
      cache.withoutBlocked = (.ok applied, cache') := hexec
  obtain ⟨synced, hsnd, hsynced⟩ :=
    applyBlockedShields_snd fromStrRadix blockedShields cache.withoutBlocked
  have hprogress : cache.withoutBlocked.progress = cache.progress :=
    (clearBlocked_frame _ _).1.progress
  rw [happly, hprogress] at hsnd
  rw [happly] at hsynced
  obtain rfl := hsynced applied rfl
  exact ⟨_, hsnd⟩

end Lists

/-- Putting the same blocked shields in place again changes no status, as long
    as every blocked commitment had one. -/
theorem status_withBlocked_same {cache : PoiCache} (h : BlockedStatuses cache)
    {shields : List (Bytes32 × BlockedShield)}
    (hsame : (cache.withoutBlocked.withBlocked shields).blockedShieldsByBlindedCommitment
      = cache.blockedShieldsByBlindedCommitment) :
    (cache.withoutBlocked.withBlocked shields).statusByBlindedCommitment
      = cache.statusByBlindedCommitment := by
  refine Std.ExtTreeMap.ext_getElem? fun commitment => ?_
  have hmem : commitment ∈ shields.map Prod.fst ↔
      commitment ∈ cache.blockedShieldsByBlindedCommitment := by
    rw [← hsame, mem_withBlocked, withoutBlocked_blocked]
    exact (or_iff_left Std.ExtTreeMap.not_mem_empty).symm
  have hcleared := getElem?_status_withoutBlocked cache commitment
  rw [getElem?_status_withBlocked]
  simp only [hmem]
  by_cases hblocked : commitment ∈ cache.blockedShieldsByBlindedCommitment
  · rcases h commitment hblocked with hvalid | hshield
    · -- A valid commitment is left alone both times.
      rw [if_neg (fun hboth => by rw [hvalid] at hboth; exact absurd hboth.2 (by decide))]
        at hcleared
      have hstatus : cache.withoutBlocked.status commitment = .valid := by
        rw [PoiCache.status, hcleared]
        exact hvalid
      rw [if_neg (fun hboth => hboth.2 hstatus), hcleared]
    · -- A blocked one is forgotten and blocked again.
      rw [if_pos ⟨hblocked, hshield⟩] at hcleared
      have hstatus : cache.withoutBlocked.status commitment = .missing := by
        rw [PoiCache.status, hcleared]
        rfl
      rw [if_pos ⟨hblocked, by rw [hstatus]; decide⟩,
        (status_eq_iff (by decide)).mp hshield]
  · rw [if_neg (fun hboth => hblocked hboth.1), hcleared, if_neg (fun hboth => hblocked hboth.1)]

theorem blockedStatuses_new (identity : PoiCacheIdentity) :
    BlockedStatuses (PoiCache.new identity) :=
  fun _ hmem => absurd hmem Std.ExtTreeMap.not_mem_empty

theorem BlockedStatuses.setValid {cache : PoiCache} (h : BlockedStatuses cache) (key : Bytes32) :
    BlockedStatuses (cache.setStatus key .valid) := by
  intro commitment hmem
  have hstatus := getElem?_setStatus cache key .valid commitment
  by_cases hkey : key = commitment
  · rw [if_pos hkey] at hstatus
    exact Or.inl ((status_eq_iff (by decide)).mpr hstatus)
  · rw [if_neg hkey] at hstatus
    rw [PoiCache.status, hstatus]
    exact h commitment hmem

theorem BlockedStatuses.blockShield {cache : PoiCache} (h : BlockedStatuses cache) (key : Bytes32)
    (shield : BlockedShield) : BlockedStatuses (cache.blockShield key shield) := by
  intro commitment hmem
  have hstatus := getElem?_status_blockShield cache key shield commitment
  by_cases hentry : key = commitment ∧ cache.status commitment ≠ .valid
  · rw [if_pos hentry] at hstatus
    exact Or.inr ((status_eq_iff (by decide)).mpr hstatus)
  · rw [if_neg hentry] at hstatus
    rw [PoiCache.status, hstatus]
    rcases (mem_blockShield _ _ _ _).mp hmem with hkey | hold
    · exact Or.inl (not_not.mp fun hvalid => hentry ⟨hkey, hvalid⟩)
    · exact h commitment hold

/-- Every operation of the cache keeps the statuses of blocked shields. -/
theorem blockedStatuses_stable (poseidon : U256 → U256 → U256) :
    Stable poseidon BlockedStatuses := by
  intro cache cache' hstep h
  cases hstep with
  | markValid key => exact h.setValid key
  | store globalIndex leaf => exact h.setValid leaf
  | block key shield => exact h.blockShield key shield
  | unblock =>
    intro commitment hmem
    rw [withoutBlocked_blocked] at hmem
    exact absurd hmem Std.ExtTreeMap.not_mem_empty
  | raiseEvents index => exact h
  | raiseLeaves index => exact h
  | blockedSynced => exact h
  | computeRoots => exact h
  | judge accepted => exact h

/-- Blocked shields have their statuses after every run. -/
theorem run_blockedStatuses (poseidon : U256 → U256 → U256) (externals : PoiCacheExternals)
    (operations : List PoiCacheOperation) {identity : PoiCacheIdentity} {cache : PoiCache}
    (hrun : PoiCacheOperation.run poseidon externals operations (PoiCache.new identity)
      = some cache) : BlockedStatuses cache :=
  run_stable (blockedStatuses_stable poseidon) externals operations (blockedStatuses_new identity)
    hrun

/-- Refreshing the list of blocked shields with the list that is known already changes
    nothing, whatever has been done with the cache before, and with what success. -/
theorem refresh_blocked_unchanged (poseidon : U256 → U256 → U256) (externals : PoiCacheExternals)
    (operations : List PoiCacheOperation) {identity : PoiCacheIdentity} {cache refreshed : PoiCache}
    (hrun : PoiCacheOperation.run poseidon externals operations (PoiCache.new identity)
      = some cache) {blockedShields : List BlockedShield} {applied : Nat}
    (hrefresh : (replaceBlockedShields externals.fromStrRadix blockedShields).exec cache
      = (.ok applied, refreshed))
    (hsame : refreshed.blockedShieldsByBlindedCommitment =
      cache.blockedShieldsByBlindedCommitment) :
    refreshed =
      { cache with progress := { cache.progress with blockedShieldsSynced := true } } := by
  obtain ⟨shields, rfl⟩ := replaceBlockedShields_eq_ok hrefresh
  have hstatuses := status_withBlocked_same (run_blockedStatuses poseidon externals operations hrun)
    hsame
  have hblocked := sameLeaves_withBlocked cache.withoutBlocked shields
  exact (PoiCache.mk.injEq ..).mpr ⟨hblocked.identity.trans (clearBlocked_frame _ _).1.identity,
    rfl, hblocked.forest.trans (clearBlocked_frame _ _).1.forest, hstatuses,
    hblocked.positions.trans (clearBlocked_frame _ _).1.positions, hsame⟩

/-- A blocked shield whose commitment reads as zero. -/
def someShield : BlockedShield := ⟨"", "", none, ""⟩

/-- A cache with one blocked shield. -/
def blockedCache : PoiCache :=
  { (PoiCache.new someIdentity).blockShield 0 someShield with
    progress := { blockedShieldsSynced := true } }

/-- A refresh with the same shield changes nothing. -/
theorem refresh_blocked_unchanged_blockedCache :
    (replaceBlockedShields (fun _ _ => none) [someShield]).exec blockedCache
      = (.ok 1, blockedCache) := by
  have hrun : PoiCacheOperation.run (fun a _ => a) ⟨fun _ _ => .ok (), fun _ _ => .ok (),
      fun _ _ => none⟩ [.applyBlockedShields [someShield]] (PoiCache.new someIdentity)
      = some blockedCache := rfl
  have hrefresh : (replaceBlockedShields (fun _ _ => none) [someShield]).exec blockedCache
      = (.ok 1, ((replaceBlockedShields (fun _ _ => none) [someShield]).exec blockedCache).2) := rfl
  rw [hrefresh, refresh_blocked_unchanged _ _ _ hrun hrefresh rfl]
  rfl

end Railgun
