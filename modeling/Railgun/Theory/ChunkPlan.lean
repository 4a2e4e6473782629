import Railgun.Core.ChunkPlan
import Railgun.Lib.Fallible

/-!
# Chunks and Their Items

The planner is compared with a plain grouping of the items into runs. Where a run
ends depends on the kinds and the sizes of the items alone, and a chunk holds what
is added up over its run. The end of the range of a chunk is the largest end of
its items, but its start is the start of the first item, so the range misses an
item that starts earlier.

## Main definitions

* `PlanRun`: Items that come one after the other.
* `PlanRun.chunk`: The chunk that is planned for a run.
* `planRuns`: The runs of a list of items.

## Theorems

* `push_eq_ok`: Taking an item follows the grouping.
* `planChunks_eq_ok`: The chunks are those of the runs.
* `planRuns_sound`: The runs partition the items and keep to the limits.
* `planChunks_losesNothing_iff`: When nothing is lost.
-/

namespace Railgun

open ChunkPlanner

/-- The items of a chunk, of which there is at least one. -/
structure PlanRun where
  first : ChunkPlanItem
  rest : List ChunkPlanItem
deriving DecidableEq, Repr

namespace PlanRun

variable (config : ChunkPlanningConfig) (run : PlanRun) (item : ChunkPlanItem)

/-- All of them. -/
def items : List ChunkPlanItem := run.first :: run.rest

/-- Their size. -/
def bytes : Nat := (run.items.map (·.compressedByteSize)).sum

/-- The chunk they make. -/
def chunk : PlannedChunk where
  range := { run.first.range with
    finish := run.rest.foldl (fun finish item => max finish item.range.finish)
      run.first.range.finish }
  rowCount := (run.items.map (·.rowCount)).sum
  compressedByteSize := run.bytes
  itemCount := run.items.length

/-- Whether the next item begins a new run. -/
def endsBefore : Bool :=
  decide (run.first.range.kind ≠ item.range.kind ∨
    run.bytes + item.compressedByteSize > config.hardMaxCompressedBytes ∨
    run.bytes + item.compressedByteSize > config.softMaxCompressedBytes ∨
    run.bytes ≥ config.targetCompressedBytes ∧
      run.bytes + item.compressedByteSize > config.targetCompressedBytes)

/-- One more item. -/
def add : PlanRun := { run with rest := run.rest ++ [item] }

theorem items_add : (run.add item).items = run.items ++ [item] := rfl

theorem chunk_add : (run.add item).chunk =
    { range := { run.chunk.range with finish := max run.chunk.range.finish item.range.finish },
      rowCount := run.chunk.rowCount + item.rowCount,
      compressedByteSize := run.chunk.compressedByteSize + item.compressedByteSize,
      itemCount := run.chunk.itemCount + 1 } := by
  simp [chunk, bytes, items, add, Nat.add_assoc]

end PlanRun

/-- The runs that have ended and the one that has not. -/
abbrev PlanRuns := List PlanRun × Option PlanRun

/-- An item starts a run or is added to the last. -/
def PlanRuns.step (config : ChunkPlanningConfig) (runs : PlanRuns) (item : ChunkPlanItem) :
    PlanRuns :=
  match runs.2 with
  | none => (runs.1, some ⟨item, []⟩)
  | some run =>
    if run.endsBefore config item then (runs.1 ++ [run], some ⟨item, []⟩)
    else (runs.1, some (run.add item))

/-- The runs of a list of items. -/
def planRuns (config : ChunkPlanningConfig) (items : List ChunkPlanItem) : List PlanRun :=
  let runs := items.foldl (PlanRuns.step config) ([], none)
  runs.1 ++ runs.2.toList

/-- The planner that has made the chunks of some runs. -/
def PlanRuns.planner (runs : PlanRuns) : ChunkPlanner :=
  { current := runs.2.map PlanRun.chunk, planned := runs.1.map PlanRun.chunk }

section Refinement

variable {config : ChunkPlanningConfig} {item : ChunkPlanItem}

theorem planAdd_eq_ok {a b c : Nat} : planAdd a b = .ok c ↔ a + b < 2 ^ 64 ∧ c = a + b := by
  rw [planAdd, ite_error_eq_ok, not_le, Except.ok.injEq, eq_comm (a := a + b)]

theorem shouldFlushBefore_eq_ok {runs : List PlanRun} {run : PlanRun} {flush : Bool}
    (h : (PlanRuns.planner (runs, some run)).shouldFlushBefore config item = .ok flush) :
    flush = run.endsBefore config item := by
  unfold shouldFlushBefore at h
  dsimp only [PlanRuns.planner, Option.map_some] at h
  by_cases hkind : run.chunk.range.kind = item.range.kind
  · rw [if_neg (not_not.mpr hkind), bind_pure_eq_ok] at h
    obtain ⟨size, hadd, rfl⟩ := h
    obtain ⟨-, rfl⟩ := planAdd_eq_ok.mp hadd
    have hne : ¬ run.first.range.kind ≠ item.range.kind := not_not.mpr hkind
    exact decide_eq_decide.mpr (or_iff_right hne).symm
  · rw [if_pos hkind] at h
    cases h
    exact (decide_eq_true (.inl hkind)).symm

theorem add_eq_ok {runs : List PlanRun} {run : PlanRun} {planner : ChunkPlanner}
    (hkind : run.chunk.range.kind = item.range.kind)
    (h : (PlanRuns.planner (runs, some run)).add item = .ok planner) :
    planner = PlanRuns.planner (runs, some (run.add item)) := by
  unfold add at h
  dsimp only [PlanRuns.planner, Option.map_some] at h
  rw [if_neg (not_not.mpr hkind), bind_eq_ok] at h
  obtain ⟨rows, hrows, h⟩ := h
  rw [bind_eq_ok] at h
  obtain ⟨bytes, hbytes, h⟩ := h
  rw [bind_pure_eq_ok] at h
  obtain ⟨count, hcount, rfl⟩ := h
  obtain ⟨-, rfl⟩ := planAdd_eq_ok.mp hrows
  obtain ⟨-, rfl⟩ := planAdd_eq_ok.mp hbytes
  obtain ⟨-, rfl⟩ := planAdd_eq_ok.mp hcount
  rw [PlanRuns.planner, Option.map_some, PlanRun.chunk_add]

/-- One step of the planner is one step of the runs. -/
theorem push_eq_ok {runs : PlanRuns} {planner : ChunkPlanner}
    (h : runs.planner.push config item = .ok planner) :
    item.compressedByteSize ≤ config.hardMaxCompressedBytes ∧
      planner = (runs.step config item).planner := by
  rw [push, ite_error_eq_ok, ite_error_eq_ok, bind_eq_ok] at h
  obtain ⟨-, hsize, flush, hflush, h⟩ := h
  refine ⟨not_lt.mp hsize, ?_⟩
  obtain ⟨done, _ | run⟩ := runs
  · cases hflush
    exact (Except.ok.inj h).symm
  · obtain rfl := shouldFlushBefore_eq_ok hflush
    unfold PlanRuns.step
    dsimp only
    by_cases hends : run.endsBefore config item = true
    · rw [if_pos hends] at h ⊢
      rw [PlanRuns.planner, List.map_append]
      exact (Except.ok.inj h).symm
    · rw [if_neg hends] at h ⊢
      refine add_eq_ok ?_ h
      by_contra hne
      exact hends (decide_eq_true (.inl hne))

end Refinement

/-- A run keeps to the kinds and to the limits. -/
structure PlanRun.Fits (config : ChunkPlanningConfig) (run : PlanRun) : Prop where
  kind : ∀ item ∈ run.rest, item.range.kind = run.first.range.kind
  soft : run.bytes ≤ config.softMaxCompressedBytes ∨ run.rest = []
  hard : run.bytes ≤ config.hardMaxCompressedBytes

/-- The runs, the last one included. -/
def PlanRuns.all (runs : PlanRuns) : List PlanRun := runs.1 ++ runs.2.toList

section Runs

variable {config : ChunkPlanningConfig} {item : ChunkPlanItem}

theorem fits_single (hsize : item.compressedByteSize ≤ config.hardMaxCompressedBytes) :
    PlanRun.Fits config ⟨item, []⟩ where
  kind := nofun
  soft := .inr rfl
  hard := by simpa [PlanRun.bytes, PlanRun.items] using hsize

/-- An item before which a run does not end fits into it. -/
theorem PlanRun.Fits.add {run : PlanRun} (h : run.Fits config)
    (hends : run.endsBefore config item = false) : (run.add item).Fits config := by
  have hbytes : (run.add item).bytes = run.bytes + item.compressedByteSize := by
    simp [PlanRun.bytes, PlanRun.items_add]
  rw [PlanRun.endsBefore, decide_eq_false_iff_not, not_or, not_or, not_or] at hends
  obtain ⟨hkind, hhard, hsoft, -⟩ := hends
  constructor
  · intro other hother
    rcases List.mem_append.mp hother with hold | hnew
    · exact h.kind other hold
    · rw [List.mem_singleton.mp hnew]
      exact (not_not.mp hkind).symm
  · exact .inl (by omega)
  · omega

/-- A step keeps the runs within the limits and loses no item. -/
theorem PlanRuns.step_sound {runs : PlanRuns} (h : ∀ run ∈ runs.all, run.Fits config)
    (hsize : item.compressedByteSize ≤ config.hardMaxCompressedBytes) :
    (∀ run ∈ (runs.step config item).all, run.Fits config) ∧
      (runs.step config item).all.flatMap PlanRun.items =
        runs.all.flatMap PlanRun.items ++ [item] := by
  have hsingle := fits_single hsize
  obtain ⟨done, _ | run⟩ := runs
  · simp only [PlanRuns.all, PlanRuns.step, Option.toList_none, List.append_nil,
      Option.toList_some, List.forall_mem_append, List.forall_mem_singleton, List.flatMap_append,
      List.flatMap_singleton] at h ⊢
    exact ⟨⟨h, hsingle⟩, rfl⟩
  · simp only [PlanRuns.all, PlanRuns.step, Option.toList_some, List.forall_mem_append,
      List.forall_mem_singleton] at h ⊢
    by_cases hends : run.endsBefore config item = true
    · simp only [if_pos hends, Option.toList_some, List.forall_mem_append,
        List.forall_mem_singleton, List.flatMap_append, List.flatMap_singleton]
      exact ⟨⟨h, hsingle⟩, rfl⟩
    · simp only [if_neg hends, Option.toList_some, List.forall_mem_singleton, List.flatMap_append,
        List.flatMap_singleton, PlanRun.items_add]
      exact ⟨⟨h.1, h.2.add (Bool.eq_false_iff.mpr hends)⟩, (List.append_assoc ..).symm⟩

theorem foldlM_push_eq_ok {items : List ChunkPlanItem} {runs : PlanRuns} {planner : ChunkPlanner}
    (hfits : ∀ run ∈ runs.all, run.Fits config)
    (h : items.foldlM (push config) runs.planner = .ok planner) :
    ∃ after : PlanRuns, after = items.foldl (PlanRuns.step config) runs ∧
      planner = after.planner ∧ (∀ run ∈ after.all, run.Fits config) ∧
      after.all.flatMap PlanRun.items = runs.all.flatMap PlanRun.items ++ items := by
  induction items generalizing runs with
  | nil => exact ⟨runs, rfl, (Except.ok.inj h).symm, hfits, (List.append_nil _).symm⟩
  | cons item items ih =>
    rw [List.foldlM_cons, bind_eq_ok] at h
    obtain ⟨next, hpush, h⟩ := h
    obtain ⟨hsize, rfl⟩ := push_eq_ok hpush
    obtain ⟨hfits', hitems⟩ := PlanRuns.step_sound hfits hsize
    obtain ⟨after, hafter, hplanner, hall, hflat⟩ := ih hfits' h
    refine ⟨after, hafter, hplanner, hall, ?_⟩
    rw [hflat, hitems, List.append_assoc, List.singleton_append]

theorem planChunks_eq_ok {items : List ChunkPlanItem} {chunks : List PlannedChunk}
    (h : planChunks items config = .ok chunks) :
    chunks = (planRuns config items).map PlanRun.chunk ∧
      (∀ run ∈ planRuns config items, run.Fits config) ∧
      (planRuns config items).flatMap PlanRun.items = items := by
  rw [planChunks, bind_eq_ok] at h
  obtain ⟨-, -, h⟩ := h
  rw [bind_pure_eq_ok] at h
  obtain ⟨planner, hfold, rfl⟩ := h
  obtain ⟨after, rfl, rfl, hall, hflat⟩ := @foldlM_push_eq_ok config _ ([], none) _ nofun hfold
  refine ⟨?_, hall, hflat⟩
  simp only [finish, flushCurrent, PlanRuns.planner, planRuns, List.map_append]
  cases (items.foldl (PlanRuns.step config) ([], none)).2 <;> rfl

end Runs

/-- What a chunk says of the items of a run. -/
structure PlannedChunk.Accounts (config : ChunkPlanningConfig) (run : PlanRun)
    (chunk : PlannedChunk) : Prop where
  kind : ∀ item ∈ run.items, item.range.kind = chunk.range.kind
  rowCount : chunk.rowCount = (run.items.map (·.rowCount)).sum
  compressedByteSize : chunk.compressedByteSize = (run.items.map (·.compressedByteSize)).sum
  itemCount : chunk.itemCount = run.items.length
  soft : chunk.compressedByteSize ≤ config.softMaxCompressedBytes ∨ run.items.length = 1
  hard : chunk.compressedByteSize ≤ config.hardMaxCompressedBytes
  range : ∀ item ∈ run.items,
    chunk.range.start ≤ item.range.start ∧ item.range.finish ≤ chunk.range.finish

/-- The chunks correspond to consecutive runs that partition the items. -/
def LosesNothing (config : ChunkPlanningConfig) (items : List ChunkPlanItem)
    (chunks : List PlannedChunk) : Prop :=
  ∃ runs : List PlanRun, runs.flatMap PlanRun.items = items ∧
    List.Forall₂ (PlannedChunk.Accounts config) runs chunks

theorem le_foldl_max (items : List ChunkPlanItem) (finish : Nat) :
    finish ≤ items.foldl (fun finish item => max finish item.range.finish) finish ∧
      ∀ item ∈ items,
        item.range.finish ≤
          items.foldl (fun finish item => max finish item.range.finish) finish := by
  induction items generalizing finish with
  | nil => exact ⟨Nat.le_refl _, nofun⟩
  | cons item items ih =>
    obtain ⟨hstart, hmem⟩ := ih (max finish item.range.finish)
    rw [List.foldl_cons, List.forall_mem_cons]
    exact ⟨(Nat.le_max_left ..).trans hstart, (Nat.le_max_right ..).trans hstart, hmem⟩

theorem accounts_chunk {config : ChunkPlanningConfig} {run : PlanRun} (h : run.Fits config)
    (hstart : ∀ item ∈ run.items, run.first.range.start ≤ item.range.start) :
    run.chunk.Accounts config run where
  kind := List.forall_mem_cons.mpr ⟨rfl, h.kind⟩
  rowCount := rfl
  compressedByteSize := rfl
  itemCount := rfl
  soft := h.soft.imp_right fun hrest => by simp [PlanRun.items, hrest]
  hard := h.hard
  range := by
    obtain ⟨hfirst, hrest⟩ := le_foldl_max run.rest run.first.range.finish
    refine fun item hitem => ⟨hstart item hitem, ?_⟩
    rcases List.mem_cons.mp hitem with rfl | hmem
    · exact hfirst
    · exact hrest item hmem

/-- The chunks determine the runs they account for. -/
theorem planRuns_unique {config : ChunkPlanningConfig} {runs others : List PlanRun}
    (hitems : runs.flatMap PlanRun.items = others.flatMap PlanRun.items)
    (h : List.Forall₂ (PlannedChunk.Accounts config) runs (others.map PlanRun.chunk)) :
    runs = others := by
  have hlength : runs.map (fun run => run.items.length) =
      others.map fun run => run.items.length := by
    have hcount := map_eq_of_forall₂ (h.imp fun run chunk haccounts => haccounts.itemCount.symm)
    rw [List.map_map] at hcount
    exact hcount
  have hmap : runs.map PlanRun.items = others.map PlanRun.items := by
    rw [List.eq_iff_flatten_eq, ← List.flatMap_def, ← List.flatMap_def, List.map_map, List.map_map]
    exact ⟨hitems, hlength⟩
  refine List.map_injective_iff.mpr (fun a b heq => ?_) hmap
  obtain ⟨hfirst, hrest⟩ := List.cons.inj heq
  cases b
  subst hfirst hrest
  rfl

/-- The runs of items that are sorted by their starts begin with their least start. -/
theorem planRuns_sorted {config : ChunkPlanningConfig} {items : List ChunkPlanItem}
    (hitems : (planRuns config items).flatMap PlanRun.items = items)
    (hsorted : items.Pairwise fun a b => a.range.start ≤ b.range.start) :
    ∀ run ∈ planRuns config items, ∀ item ∈ run.items,
      run.first.range.start ≤ item.range.start := by
  intro run hrun item hitem
  rw [← hitems, List.pairwise_flatMap] at hsorted
  rcases List.mem_cons.mp hitem with rfl | hrest
  · exact Nat.le_refl _
  · exact List.rel_of_pairwise_cons (hsorted.1 run hrun) hrest

/-- Nothing is lost exactly if no item starts before the first item of its run, and
    so for all items that are sorted by their starts. -/
theorem planChunks_losesNothing_iff (config : ChunkPlanningConfig) (items : List ChunkPlanItem)
    (chunks : List PlannedChunk) (h : planChunks items config = .ok chunks) :
    (LosesNothing config items chunks ↔
      ∀ run ∈ planRuns config items, ∀ item ∈ run.items,
        run.first.range.start ≤ item.range.start) ∧
    ((items.Pairwise fun a b => a.range.start ≤ b.range.start) →
      LosesNothing config items chunks) := by
  obtain ⟨rfl, hfits, hitems⟩ := planChunks_eq_ok h
  suffices hiff : LosesNothing config items ((planRuns config items).map PlanRun.chunk) ↔
      ∀ run ∈ planRuns config items, ∀ item ∈ run.items,
        run.first.range.start ≤ item.range.start from
    ⟨hiff, fun hsorted => hiff.mpr (planRuns_sorted hitems hsorted)⟩
  constructor
  · rintro ⟨runs, hruns, haccounts⟩
    obtain rfl := planRuns_unique (hruns.trans hitems.symm) haccounts
    rw [List.forall₂_map_right_iff, List.forall₂_same] at haccounts
    exact fun run hrun item hitem => ((haccounts run hrun).range item hitem).1
  · intro hstart
    refine ⟨planRuns config items, hitems, ?_⟩
    rw [List.forall₂_map_right_iff, List.forall₂_same]
    exact fun run hrun => accounts_chunk (hfits run hrun) (hstart run hrun)

/-- Two items in one chunk, the later one of which starts earlier. -/
def sampleItems : List ChunkPlanItem :=
  [⟨⟨.block, 10, 19⟩, 10, 4⟩, ⟨⟨.block, 0, 9⟩, 10, 4⟩]

/-- Small sizes. -/
def sampleConfig : ChunkPlanningConfig := ⟨8, 4, 8, 16⟩

/-- Two items in the wrong order: the chunk starts after the second one. -/
theorem planChunks_unsorted_loses :
    planChunks sampleItems sampleConfig = .ok [⟨⟨.block, 10, 19⟩, 20, 8, 2⟩] ∧
      ¬ LosesNothing sampleConfig sampleItems [⟨⟨.block, 10, 19⟩, 20, 8, 2⟩] := by
  have hok : planChunks sampleItems sampleConfig = .ok [⟨⟨.block, 10, 19⟩, 20, 8, 2⟩] := by
    decide +kernel
  refine ⟨hok, ?_⟩
  rintro ⟨runs, hruns, haccounts⟩
  obtain _ | ⟨haccount, hrest⟩ := haccounts
  cases hrest
  rw [List.flatMap_singleton] at hruns
  have hlate := (haccount.range ⟨⟨.block, 0, 9⟩, 10, 4⟩ (by rw [hruns]; decide)).1
  exact absurd hlate (by decide)

/-- In order, the same two items are one chunk. -/
theorem planChunks_losesNothing_sorted :
    planChunks sampleItems.reverse sampleConfig = .ok [⟨⟨.block, 0, 19⟩, 20, 8, 2⟩] ∧
      LosesNothing sampleConfig sampleItems.reverse [⟨⟨.block, 0, 19⟩, 20, 8, 2⟩] :=
  have hok : planChunks sampleItems.reverse sampleConfig = .ok [⟨⟨.block, 0, 19⟩, 20, 8, 2⟩] := by
    decide +kernel
  ⟨hok, (planChunks_losesNothing_iff _ _ _ hok).2 (by decide)⟩

end Railgun
