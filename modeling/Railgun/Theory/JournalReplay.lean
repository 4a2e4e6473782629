import Railgun.Theory.Journal
import Railgun.Theory.MerkleUpdates

/-!
# Journal Replay

Replaying deltas keeps one dense tree beside the forest of the cache. A delta
that stays in the tree of the one before it writes its leaves into the dense
tree; any other delta with leaves builds the dense tree of the tree it ends in
from the forest. A delta without leaves finds the dense tree as it was, or reads
the root off the forest if there is no dense tree yet.

The invariant that carries the argument: the dense tree is the complete tree of
the forest's own leaves, and the forest has no leaf from the cursor on, so that a
dense tree built from the leaves up to the tip misses none.

## Main definitions

* `NoLeafFrom`: The forest has no leaf from an index on.
* `DenseMerkleTree.withLeaves`: The leaves of a delta written into a dense tree.

## Theorems

* `journalReplay_roots`: The roots of any replay.
* `journalReplay_staleRoot`: A root that came with the cache is not checked.
-/

namespace Railgun

open PoiCacheJournalReplay
open DenseMerkleTree (fromForestPrefix)

variable (poseidon : U256 → U256 → U256)

/-- There is no leaf from an index on. -/
def NoLeafFrom (forest : MerkleForest) (start : Nat) : Prop :=
  ∀ treeNumber position, start ≤ treeNumber * treeLeafCount + position →
    forest.leafAt treeNumber position = none

theorem noLeafFrom_empty (start : Nat) : NoLeafFrom {} start := by
  intro treeNumber position _
  rw [MerkleForest.leafAt, Std.ExtTreeMap.getElem?_empty, Option.bind_none]

theorem place_index {index : Nat} (h : index < 2 ^ 48) :
    (normalizeTreePosition 0 index).1 * treeLeafCount + (normalizeTreePosition 0 index).2
      = index := by
  simp only [normalizeTreePosition, treeLeafCount, treeDepth]
  omega

theorem withLeaf_forest (cache : PoiCache) (index : Nat) (leaf : U256) :
    (cache.withLeaf index leaf).forest
      = if leaf ≠ 0 then
          cache.forest.withLeaf (normalizeTreePosition 0 index).1 (normalizeTreePosition 0 index).2
            leaf
        else cache.forest := by
  rw [PoiCache.withLeaf]
  split <;> rfl

theorem NoLeafFrom.withLeaf {cache : PoiCache} {index : Nat} (h : NoLeafFrom cache.forest index)
    (hindex : index < 2 ^ 48) (leaf : U256) :
    NoLeafFrom (cache.withLeaf index leaf).forest (index + 1) := by
  intro treeNumber position hstart
  have hplace := place_index hindex
  rw [withLeaf_forest]
  split
  · rw [leafAt_withLeaf, if_neg, h treeNumber position (by omega)]
    rintro ⟨rfl, rfl⟩
    omega
  · exact h treeNumber position (by omega)

/-- A run of leaves moves the bound behind it. -/
theorem NoLeafFrom.withLeaves {cache : PoiCache} {start : Nat} (h : NoLeafFrom cache.forest start)
    (leaves : List U256) (hbound : start + leaves.length ≤ 2 ^ 48) :
    NoLeafFrom (cache.withLeaves start leaves).forest (start + leaves.length) := by
  induction leaves generalizing cache start with
  | nil => exact h
  | cons leaf leaves ih =>
    rw [List.length_cons] at hbound
    have hrest := ih (h.withLeaf (by omega) leaf) (by omega)
    rwa [PoiCache.withLeaves, List.length_cons, ← Nat.add_assoc, Nat.add_right_comm]

theorem withLeaves_keptRootsCurrent {cache : PoiCache} (start : Nat) (leaves : List U256)
    (h : KeptRootsCurrent poseidon cache.forest) :
    KeptRootsCurrent poseidon (cache.withLeaves start leaves).forest := by
  induction leaves generalizing cache start with
  | nil => exact h
  | cons leaf leaves ih =>
    refine ih (start + 1) ?_
    rw [withLeaf_forest]
    split_ifs
    · exact withLeaf_keptRootsCurrent poseidon h _ _ _
    · exact h

theorem forestLeaf_withLeaf (forest : MerkleForest) (treeNumber position : Nat) (leaf : U256) :
    forestLeaf (forest.withLeaf treeNumber position leaf) treeNumber
      = Function.update (forestLeaf forest treeNumber) position leaf := by
  funext i
  rw [forestLeaf, leafAt_withLeaf, Function.update_apply]
  by_cases hi : i = position
  · rw [if_pos ⟨rfl, hi.symm⟩, if_pos hi, Option.getD_some]
  · rw [if_neg fun h => hi h.2.symm, if_neg hi, forestLeaf]

/-- The leaves from an index on that are not zero, written into a dense tree. -/
def DenseMerkleTree.withLeaves (dense : DenseMerkleTree) (start : Nat) :
    List Bytes32 → DenseMerkleTree
  | [] => dense
  | leaf :: leaves =>
    (if leaf = 0 then dense
      else dense.setLeaf poseidon (normalizeTreePosition 0 start).2 leaf).withLeaves
      (start + 1) leaves

/-- Leaves of one tree keep its dense tree complete. -/
theorem withLeaves_completeTree (cache : PoiCache) (start : Nat) (leaves : List U256)
    {treeNumber : Nat} (htree : ∀ index, start ≤ index → index < start + leaves.length →
      (normalizeTreePosition 0 index).1 = treeNumber) :
    (completeTree poseidon (forestLeaf cache.forest treeNumber)).withLeaves poseidon start leaves
      = completeTree poseidon
        (forestLeaf (cache.withLeaves start leaves).forest treeNumber) := by
  induction leaves generalizing cache start with
  | nil => rfl
  | cons leaf leaves ih =>
    rw [List.length_cons] at htree
    have hfirst := htree start le_rfl (by omega)
    have hrest := ih (cache.withLeaf start leaf) (start + 1)
      (fun index hlow hhigh => htree index (by omega) (by omega))
    rw [PoiCache.withLeaves, DenseMerkleTree.withLeaves, ← hrest, withLeaf_forest]
    by_cases hzero : leaf = 0
    · rw [if_pos hzero, if_neg (not_not_intro hzero)]
    · rw [if_neg hzero, if_pos hzero, hfirst, forestLeaf_withLeaf,
        setLeaf_completeTree poseidon _ (normalizeTreePosition_lt 0 start).2]

theorem fromForestPrefix_tip {forest : MerkleForest} {tip : Nat} (htip : tip < 2 ^ 48)
    (h : NoLeafFrom forest (tip + 1)) :
    fromForestPrefix poseidon forest (normalizeTreePosition 0 tip).1
        ((normalizeTreePosition 0 tip).2 + 1)
      = completeTree poseidon (forestLeaf forest (normalizeTreePosition 0 tip).1) := by
  have hplace := place_index htip
  have hlt := (normalizeTreePosition_lt 0 tip).2
  rw [fromForestPrefix_eq, Nat.min_eq_left (by omega)]
  congr 1
  funext i
  by_cases hi : i < (normalizeTreePosition 0 tip).2 + 1
  · exact prefixLeaf_of_lt hi _
  · rw [prefixLeaf_of_le (by omega), forestLeaf, h _ _ (by omega), Option.getD_none]

namespace PoiCacheJournalReplay

variable {start : Nat}

theorem setLeafAt_exec {offset : Nat} (h : start + offset < 2 ^ 64) (leaf : Bytes32)
    (replay : PoiCacheJournalReplay) :
    (setLeafAt poseidon start (leaf, offset)).exec replay
      = (.ok (), { replay with
        currentTree := replay.currentTree.map fun current =>
          (current.1, if leaf = 0 then current.2
            else current.2.setLeaf poseidon (normalizeTreePosition 0 (start + offset)).2 leaf) })
      := by
  rw [setLeafAt]
  by_cases hzero : leaf = 0
  · have hsame : (fun current : Nat × DenseMerkleTree => (current.1, current.2)) = id := rfl
    simp only [if_pos hzero, hsame, Option.map_id, id]
    rfl
  · have hindex : checkedAdd start offset = .ok (start + offset) := checkedAdd_eq_ok.mpr ⟨h, rfl⟩
    simp only [if_neg hzero, hindex]
    rfl

theorem setLeaves_exec {leaves : List Bytes32} (h : start + leaves.length < 2 ^ 64)
    (replay : PoiCacheJournalReplay) :
    (setLeaves poseidon start leaves).exec replay
      = (.ok (), { replay with
        currentTree := replay.currentTree.map fun current =>
          (current.1, current.2.withLeaves poseidon start leaves) }) := by
  suffices hloop : ∀ offset, start + offset + leaves.length < 2 ^ 64 →
      ((leaves.zipIdx offset).foldlM (fun _ entry => setLeafAt poseidon start entry) ()).exec replay
        = (.ok (), { replay with
          currentTree := replay.currentTree.map fun current =>
            (current.1, current.2.withLeaves poseidon (start + offset) leaves) }) from hloop 0 h
  clear h
  induction leaves generalizing replay with
  | nil =>
    intro offset _
    have hsame : (fun current : Nat × DenseMerkleTree => (current.1, current.2)) = id := rfl
    simp only [DenseMerkleTree.withLeaves, hsame, Option.map_id, id]
    rfl
  | cons leaf leaves ih =>
    intro offset hbound
    rw [List.length_cons] at hbound
    rw [List.zipIdx_cons, List.foldlM_cons,
      exec_bind_of_ok (setLeafAt_exec poseidon (by omega) leaf replay),
      ih _ (offset + 1) (by omega), Option.map_map]
    rfl

/-- The number of the tree a delta ends in. -/
def tipTree (delta : PoiCacheJournalDelta) : Nat :=
  (normalizeTreePosition 0 (delta.eventEndCursor - 1)).1

/-- Whether a delta stays in the tree whose dense tree is kept. -/
def staysInTree (replay : PoiCacheJournalReplay) (delta : PoiCacheJournalDelta) : Bool :=
  !delta.leaves.isEmpty
    && replay.currentTree.any (fun current => current.1 = tipTree delta)
    && decide ((normalizeTreePosition 0 delta.leafStartCursor).1 = tipTree delta)

/-- The dense tree after a delta that is accepted. -/
def treeAfter (replay : PoiCacheJournalReplay) (delta : PoiCacheJournalDelta) :
    Option (Nat × DenseMerkleTree) :=
  if staysInTree replay delta then
    replay.currentTree.map fun current =>
      (current.1, current.2.withLeaves poseidon delta.leafStartCursor delta.leaves)
  else if !delta.leaves.isEmpty then
    some (tipTree delta, fromForestPrefix poseidon
      (replay.cache.withDelta delta).forest (tipTree delta)
      ((normalizeTreePosition 0 (delta.eventEndCursor - 1)).2 + 1))
  else
    replay.currentTree

variable {delta : PoiCacheJournalDelta} {replay : PoiCacheJournalReplay}

/-- A delta that is accepted ends in the replay with its cache and dense tree,
    and answers with the root of its tree there. -/
theorem applyDelta_accepted
    (h : JournalFits replay.cache delta) (hend : delta.eventEndCursor ≠ 0) :
    (applyDelta poseidon delta).exec replay
      = (rootOf poseidon ⟨replay.cache.withDelta delta, treeAfter poseidon replay delta⟩
          (tipTree delta),
        ⟨replay.cache.withDelta delta, treeAfter poseidon replay delta⟩) := by
  have hcheck := checkJournalDelta_eq_ok.mpr h
  have hcache : (onCache (PoiCache.applyJournalDelta delta)).exec replay
      = (.ok (), { replay with cache := replay.cache.withDelta delta }) := by
    rw [onCache_exec, applyJournalDelta_exec, hcheck]
  have hroom : delta.leafStartCursor + delta.leaves.length < 2 ^ 64 := h.leafEnd ▸ h.leafEnd_lt
  -- The three ways to bring the dense tree up to date.
  have htree : (if staysInTree replay delta then
        setLeaves poseidon delta.leafStartCursor delta.leaves
      else if !delta.leaves.isEmpty then
        modify fun replay => { replay with
          currentTree := some (tipTree delta, fromForestPrefix poseidon
            replay.cache.forest (tipTree delta)
            ((normalizeTreePosition 0 (delta.eventEndCursor - 1)).2 + 1)) }
      else
        pure () : ReplayM Unit).exec { replay with cache := replay.cache.withDelta delta }
      = (.ok (), ⟨replay.cache.withDelta delta, treeAfter poseidon replay delta⟩) := by
    rw [treeAfter]
    split_ifs
    · exact setLeaves_exec poseidon hroom _
    · rfl
    · rfl
  rw [applyDelta, exec_bind_of_ok (exec_get replay), if_neg hend, exec_bind_of_ok hcache]
  refine (exec_bind_of_ok htree _).trans ?_
  exact (exec_bind_of_ok (exec_get _) _).trans (exec_ofExcept _ _)

/-- Any other delta changes nothing. -/
theorem applyDelta_refused
    (h : ¬ JournalFits replay.cache delta ∨ delta.eventEndCursor = 0) :
    ∃ error, (applyDelta poseidon delta).exec replay = (.error error, replay) := by
  rw [applyDelta, exec_bind_of_ok (exec_get replay)]
  by_cases hend : delta.eventEndCursor = 0
  · rw [if_pos hend]
    exact ⟨_, rfl⟩
  rw [if_neg hend]
  cases hcheck : replay.cache.checkJournalDelta delta with
  | ok _ => exact absurd (checkJournalDelta_eq_ok.mp hcheck) (h.resolve_right hend)
  | error error =>
    refine ⟨error, ?_⟩
    rw [exec_bind, onCache_exec, applyJournalDelta_exec, hcheck]

/-- The dense tree is that of the forest's leaves, the forest keeps no stale
    root, and it has no leaf from the cursors on. -/
structure ReplayTracked (replay : PoiCacheJournalReplay) : Prop where
  cursors : replay.cache.progress.nextEventIndex = replay.cache.progress.nextLeafIndex
  noLeaf : NoLeafFrom replay.cache.forest replay.cache.progress.nextLeafIndex
  keptRoots : KeptRootsCurrent poseidon replay.cache.forest
  currentTree : ∀ treeNumber dense, replay.currentTree = some (treeNumber, dense) →
    dense = completeTree poseidon (forestLeaf replay.cache.forest treeNumber)

theorem rootOf_eq (h : ReplayTracked poseidon replay)
    {treeNumber : Nat} {root : Bytes32} (hroot : rootOf poseidon replay treeNumber = .ok root) :
    root = completeRoot poseidon (forestLeaf replay.cache.forest treeNumber) := by
  rw [rootOf] at hroot
  cases hfilter : replay.currentTree.filter (fun current => current.1 = treeNumber) with
  | some current =>
    rw [hfilter] at hroot
    obtain ⟨hcurrent, hnumber⟩ := Option.filter_eq_some_iff.mp hfilter
    obtain rfl := of_decide_eq_true hnumber
    rw [← Except.ok.inj hroot, h.currentTree _ _ hcurrent, root_completeTree]
  | none =>
    rw [hfilter] at hroot
    cases hget : (replay.cache.currentRootsReadonly poseidon)[treeNumber]? with
    | none =>
      rw [hget] at hroot
      cases hroot
    | some kept =>
      rw [hget] at hroot
      rw [PoiCache.currentRootsReadonly, computedRoots_eq poseidon h.keptRoots, recomputedRoots,
        Std.ExtTreeMap.getElem?_map, Option.map_eq_some_iff] at hget
      obtain ⟨tree, htree, hcomputed⟩ := hget
      rw [← Except.ok.inj hroot, ← hcomputed, forestLeaf_of_tree htree]

theorem place_of_stays {count : Nat} {treeNumber : Nat} (hbound : start + count ≤ 2 ^ 48)
    (hfirst : (normalizeTreePosition 0 start).1 = treeNumber)
    (hlast : (normalizeTreePosition 0 (start + count - 1)).1 = treeNumber) :
    ∀ index, start ≤ index → index < start + count →
      (normalizeTreePosition 0 index).1 = treeNumber := by
  simp only [normalizeTreePosition, treeLeafCount, treeDepth] at hfirst hlast ⊢
  omega

theorem withLeaves_forest_congr {cache cache' : PoiCache} (h : cache.forest = cache'.forest)
    (start : Nat) (leaves : List U256) :
    (cache.withLeaves start leaves).forest = (cache'.withLeaves start leaves).forest := by
  induction leaves generalizing cache cache' start with
  | nil => exact h
  | cons leaf leaves ih =>
    refine ih ?_ (start + 1)
    rw [withLeaf_forest, withLeaf_forest, h]

theorem forest_withDelta (cache : PoiCache) (delta : PoiCacheJournalDelta) :
    (cache.withDelta delta).forest
      = (cache.withLeaves delta.leafStartCursor delta.leaves).forest :=
  withLeaves_forest_congr (withEvents_forest delta.events cache) _ _

/-- An accepted delta keeps the invariant and ends at one cursor. -/
theorem accepted_tracked (h : ReplayTracked poseidon replay)
    (hfits : JournalFits replay.cache delta) (hbound : delta.leafEndCursor ≤ 2 ^ 48) :
    ReplayTracked poseidon
        ⟨replay.cache.withDelta delta, treeAfter poseidon replay delta⟩ ∧
      delta.eventEndCursor = delta.leafEndCursor := by
  obtain ⟨heventEnd, hleafEnd⟩ := withDelta_cursors hfits
  have hevents : delta.events.length = delta.leaves.length := by
    rw [hfits.events, length_journalEvents]
  have hends : delta.eventEndCursor = delta.leafEndCursor := by
    rw [hfits.eventEnd, hfits.leafEnd, hfits.eventStart, hfits.leafStart, h.cursors, hevents]
  have hsum := hfits.leafEnd
  have hstart : NoLeafFrom replay.cache.forest delta.leafStartCursor := by
    rw [hfits.leafStart]
    exact h.noLeaf
  have hnoLeaf : NoLeafFrom (replay.cache.withDelta delta).forest delta.leafEndCursor := by
    rw [forest_withDelta, hsum]
    exact hstart.withLeaves _ (by omega)
  refine ⟨⟨by rw [heventEnd, hleafEnd, hends], by rw [hleafEnd]; exact hnoLeaf, ?_, ?_⟩, hends⟩
  · rw [forest_withDelta]
    exact withLeaves_keptRootsCurrent poseidon _ _ h.keptRoots
  · intro treeNumber dense htree
    rw [treeAfter] at htree
    split_ifs at htree with hstays hleaves
    · -- The leaves are written into the dense tree of their own tree.
      rw [staysInTree, Bool.and_eq_true, Bool.and_eq_true, decide_eq_true_eq] at hstays
      obtain ⟨⟨-, hany⟩, hfirst⟩ := hstays
      obtain ⟨⟨number, dense'⟩, hcurrent, hpair⟩ := Option.map_eq_some_iff.mp htree
      obtain ⟨rfl, rfl⟩ := Prod.mk.inj hpair
      rw [hcurrent, Option.any_some, decide_eq_true_eq] at hany
      dsimp only at hany ⊢
      rw [h.currentTree _ _ hcurrent, forest_withDelta]
      refine withLeaves_completeTree poseidon _ _ _ (place_of_stays (by omega) ?_ ?_)
      · rw [hfirst, hany]
      · rw [← hsum, ← hends, hany, tipTree]
    · -- The dense tree is built from the forest as it is now.
      obtain ⟨rfl, rfl⟩ := Prod.mk.inj (Option.some.inj htree)
      rw [Bool.not_eq_true', List.isEmpty_eq_false_iff] at hleaves
      have hpos := List.length_pos_of_ne_nil hleaves
      refine fromForestPrefix_tip poseidon (by omega) ?_
      rwa [show delta.eventEndCursor - 1 + 1 = delta.leafEndCursor by omega]
    · -- There is no leaf, and the forest is as it was.
      rw [Bool.not_eq_true', List.isEmpty_eq_false_iff, not_not] at hleaves
      rw [forest_withDelta, hleaves]
      exact h.currentTree _ _ htree

/-- Every delta keeps the invariant, and a root that is returned is that of the
    tree that holds the last index covered. -/
theorem applyDelta_tracked (h : ReplayTracked poseidon replay)
    (hbound : delta.leafEndCursor ≤ 2 ^ 48) :
    ReplayTracked poseidon ((applyDelta poseidon delta).exec replay).2 ∧
      ∀ root replay', (applyDelta poseidon delta).exec replay = (.ok root, replay') →
        0 < replay'.cache.progress.nextLeafIndex ∧
        root = completeRoot poseidon (forestLeaf replay'.cache.forest
          (normalizeTreePosition 0 (replay'.cache.progress.nextLeafIndex - 1)).1) := by
  by_cases hrefused : ¬ JournalFits replay.cache delta ∨ delta.eventEndCursor = 0
  · obtain ⟨error, hexec⟩ := applyDelta_refused poseidon hrefused
    rw [hexec]
    refine ⟨h, fun root replay' hok => absurd (Prod.mk.inj hok).1 ?_⟩
    simp only [reduceCtorEq, not_false_eq_true]
  · rw [not_or, not_not] at hrefused
    obtain ⟨hfits, hend⟩ := hrefused
    obtain ⟨htracked, hends⟩ := accepted_tracked poseidon h hfits hbound
    rw [applyDelta_accepted poseidon hfits hend]
    refine ⟨htracked, ?_⟩
    intro root replay' hok
    obtain ⟨hroot, rfl⟩ := Prod.mk.inj hok
    have hcursor := (withDelta_cursors hfits).2
    rw [hcursor, ← hends]
    exact ⟨Nat.pos_of_ne_zero hend, rootOf_eq poseidon htracked hroot⟩

/-- Deltas one after another keep the invariant. -/
theorem applyDeltas_tracked (h : ReplayTracked poseidon replay)
    (deltas : List PoiCacheJournalDelta)
    (hbound : ∀ delta ∈ deltas, delta.leafEndCursor ≤ 2 ^ 48) :
    ReplayTracked poseidon (replay.applyDeltas poseidon deltas) := by
  induction deltas generalizing replay with
  | nil => exact h
  | cons delta deltas ih =>
    obtain ⟨hfirst, hrest⟩ := List.forall_mem_cons.mp hbound
    exact ih (applyDelta_tracked poseidon h hfirst).1 hrest

end PoiCacheJournalReplay

/-- Whatever deltas were applied to a replay before, refused ones among them, a
    root that applying the next one returns is the root, computed from scratch,
    of the replayed cache's leaves in the tree that holds the last index
    covered. -/
theorem journalReplay_roots (base : PoiCache)
    (hcursors : base.progress.nextEventIndex = base.progress.nextLeafIndex)
    (hnoLeaf : NoLeafFrom base.forest base.progress.nextLeafIndex)
    (hkept : KeptRootsCurrent poseidon base.forest)
    (deltas : List PoiCacheJournalDelta) (delta : PoiCacheJournalDelta)
    (hbounds : ∀ earlier ∈ deltas, earlier.leafEndCursor ≤ 2 ^ 48)
    (hbound : delta.leafEndCursor ≤ 2 ^ 48) (root : Bytes32) (replay : PoiCacheJournalReplay)
    (hroot : (applyDelta poseidon delta).exec
      (base.intoJournalReplay.applyDeltas poseidon deltas) = (.ok root, replay)) :
    0 < replay.cache.progress.nextLeafIndex ∧
      root = completeRoot poseidon (forestLeaf replay.cache.forest
        (normalizeTreePosition 0 (replay.cache.progress.nextLeafIndex - 1)).1) := by
  have hbase : PoiCacheJournalReplay.ReplayTracked poseidon base.intoJournalReplay :=
    ⟨hcursors, hnoLeaf, hkept, nofun⟩
  have htracked := applyDeltas_tracked poseidon hbase deltas hbounds
  exact (applyDelta_tracked poseidon htracked hbound).2 root replay hroot

/-- Three leaves, the second of them zero, replayed onto an empty cache. -/
theorem journalReplay_roots_zeroLeafDelta : ∃ root replay,
    (applyDelta (fun a b => a + 2 * b) zeroLeafDelta).exec
        (PoiCache.new someIdentity).intoJournalReplay = (.ok root, replay) ∧
      0 < replay.cache.progress.nextLeafIndex ∧
      root = completeRoot (fun a b => a + 2 * b) (forestLeaf replay.cache.forest
        (normalizeTreePosition 0 (replay.cache.progress.nextLeafIndex - 1)).1) := by
  have hfits : JournalFits (PoiCache.new someIdentity) zeroLeafDelta :=
    ⟨rfl, rfl, rfl, rfl, rfl, rfl, by decide, by decide, rfl, Or.inr rfl⟩
  have hexec := @PoiCacheJournalReplay.applyDelta_accepted (fun a b => a + 2 * b)
    zeroLeafDelta (PoiCache.new someIdentity).intoJournalReplay hfits (by decide)
  refine ⟨_, _, hexec, ?_⟩
  exact journalReplay_roots (fun a b => a + 2 * b) (PoiCache.new someIdentity) rfl
    (noLeafFrom_empty 0) (empty_keptRootsCurrent _) [] zeroLeafDelta
    nofun (by decide) _ _ hexec

/-- A tree with one leaf, and with a root that is not the one of this leaf. -/
def staleRootTree : MerkleTree where
  leaves := (∅ : BTreeMap Nat U256).insert 0 7
  root := some 123

/-- A cache of this tree. -/
def staleRootCache : PoiCache where
  identity := someIdentity
  progress := { nextEventIndex := 1, nextLeafIndex := 1 }
  forest := { trees := (∅ : BTreeMap Nat MerkleTree).insert 0 staleRootTree }

/-- A delta without events. -/
def emptyDelta : PoiCacheJournalDelta where
  version := 1
  identity := someIdentity
  eventStartCursor := 1
  eventEndCursor := 1
  leafStartCursor := 1
  leafEndCursor := 1
  events := []
  leaves := []

/-- A root that came with the cache is returned as it is. -/
theorem journalReplay_staleRoot :
    staleRootCache.progress.nextEventIndex = staleRootCache.progress.nextLeafIndex ∧
      NoLeafFrom staleRootCache.forest staleRootCache.progress.nextLeafIndex ∧
      ∃ replay, (applyDelta (fun _ _ => 0) emptyDelta).exec
          staleRootCache.intoJournalReplay = (.ok 123, replay) ∧
        completeRoot (fun _ _ => 0) (forestLeaf replay.cache.forest
          (normalizeTreePosition 0 (replay.cache.progress.nextLeafIndex - 1)).1) = 0 := by
  have hfits : JournalFits staleRootCache emptyDelta :=
    ⟨rfl, rfl, rfl, rfl, rfl, rfl, by decide, by decide, rfl, Or.inr rfl⟩
  have hexec := @PoiCacheJournalReplay.applyDelta_accepted (fun _ _ => 0) emptyDelta
    staleRootCache.intoJournalReplay hfits (by decide)
  have hnoLeaf : NoLeafFrom staleRootCache.forest 1 := by
    intro treeNumber position hstart
    rw [MerkleForest.leafAt, staleRootCache, getElem?_insert_key]
    split_ifs with hzero
    · rw [← hzero, Nat.zero_mul, Nat.zero_add] at hstart
      rw [Option.bind_some, staleRootTree, getElem?_insert_key, if_neg (Nat.ne_of_lt hstart)]
      exact Std.ExtTreeMap.getElem?_empty
    · rw [Std.ExtTreeMap.getElem?_empty, Option.bind_none]
  exact ⟨rfl, hnoLeaf, _, hexec, rfl⟩

end Railgun
