import Railgun.Core.Artifacts

/-!
# Planning Chunks

A publisher groups its items into chunks. Items are taken in order and added to
the current chunk until it is large enough or an item of another kind comes.

## Main definitions

* `ChunkPlanningConfig`: The sizes that chunks should and must have.
* `ChunkPlanItem`, `PlannedChunk`: What is grouped, and a group.
* `ChunkPlanError`: Why there is no plan.
* `ChunkPlanner`: The chunk that is being filled and those before it.
* `ChunkPlanner.shouldFlushBefore`: Whether an item starts a new chunk.
* `ChunkPlanner.add`, `ChunkPlanner.push`: Taking one item.
* `planChunks`: The chunks of a list of items.
-/

namespace Railgun

/-- Sizes in compressed bytes: the one to reach, two soft limits around it, and one that
    no chunk may exceed. -/
structure ChunkPlanningConfig where
  targetCompressedBytes : Nat
  softMinCompressedBytes : Nat
  softMaxCompressedBytes : Nat
  hardMaxCompressedBytes : Nat
deriving DecidableEq, Repr

/-- An item of a range of blocks or leaves, with its rows and its size. -/
structure ChunkPlanItem where
  range : IndexedArtifactRange
  rowCount : Nat
  compressedByteSize : Nat
deriving DecidableEq, Repr

/-- A chunk and how many items it has. -/
structure PlannedChunk where
  range : IndexedArtifactRange
  rowCount : Nat
  compressedByteSize : Nat
  itemCount : Nat
deriving DecidableEq, Repr

/-- Why there is no plan. -/
inductive ChunkPlanError where
  | invalidChunkPlanningConfig (softMin target softMax hardMax : Nat)
  | invalidChunkPlanRange (start finish : Nat)
  | chunkPlanItemTooLarge (actual maximum : Nat)
  | chunkPlanningOverflow
deriving DecidableEq, Repr

/-- The sizes are in order. -/
def ChunkPlanningConfig.validate (config : ChunkPlanningConfig) : Except ChunkPlanError Unit :=
  if config.softMinCompressedBytes > config.targetCompressedBytes ∨
      config.targetCompressedBytes > config.softMaxCompressedBytes ∨
      config.softMaxCompressedBytes > config.hardMaxCompressedBytes then
    .error (.invalidChunkPlanningConfig config.softMinCompressedBytes config.targetCompressedBytes
      config.softMaxCompressedBytes config.hardMaxCompressedBytes)
  else .ok ()

/-- A chunk of one item. -/
def PlannedChunk.fromItem (item : ChunkPlanItem) : PlannedChunk :=
  { range := item.range, rowCount := item.rowCount,
    compressedByteSize := item.compressedByteSize, itemCount := 1 }

/-- Addition of 64-bit words that fails when it overflows. -/
def planAdd (a b : Nat) : Except ChunkPlanError Nat :=
  if 2 ^ 64 ≤ a + b then .error .chunkPlanningOverflow else .ok (a + b)

/-- The chunk that is being filled, if any, and those before it. -/
structure ChunkPlanner where
  current : Option PlannedChunk := none
  planned : List PlannedChunk := []
deriving DecidableEq, Repr

namespace ChunkPlanner

variable (config : ChunkPlanningConfig) (planner : ChunkPlanner) (item : ChunkPlanItem)

/-- An item starts a new chunk if it is of another kind, if it would take the current
    one over a limit, or if that has reached its target already. -/
def shouldFlushBefore : Except ChunkPlanError Bool :=
  match planner.current with
  | none => .ok false
  | some current =>
    if current.range.kind ≠ item.range.kind then .ok true
    else do
      let nextSize ← planAdd current.compressedByteSize item.compressedByteSize
      return decide (nextSize > config.hardMaxCompressedBytes ∨
        nextSize > config.softMaxCompressedBytes ∨
        current.compressedByteSize ≥ config.targetCompressedBytes ∧
          nextSize > config.targetCompressedBytes)

/-- The current chunk is done. -/
def flushCurrent : ChunkPlanner :=
  { current := none, planned := planner.planned ++ planner.current.toList }

/-- The current chunk takes the item, or it is flushed if it is of another kind. -/
def add : Except ChunkPlanError ChunkPlanner :=
  match planner.current with
  | none => .ok { planner with current := some (.fromItem item) }
  | some current =>
    if current.range.kind ≠ item.range.kind then
      .ok { planner.flushCurrent with current := some (.fromItem item) }
    else do
      let rowCount ← planAdd current.rowCount item.rowCount
      let compressedByteSize ← planAdd current.compressedByteSize item.compressedByteSize
      let itemCount ← planAdd current.itemCount 1
      let range := { current.range with finish := max current.range.finish item.range.finish }
      return { planner with current := some { range, rowCount, compressedByteSize, itemCount } }

/-- Take an item: check it, flush the current chunk if it has to be, and add it. -/
def push : Except ChunkPlanError ChunkPlanner :=
  if item.range.start > item.range.finish then
    .error (.invalidChunkPlanRange item.range.start item.range.finish)
  else if item.compressedByteSize > config.hardMaxCompressedBytes then
    .error (.chunkPlanItemTooLarge item.compressedByteSize config.hardMaxCompressedBytes)
  else do
    let flush ← planner.shouldFlushBefore config item
    (if flush then planner.flushCurrent else planner).add item

/-- All chunks, the current one last. -/
def finish : List PlannedChunk := planner.flushCurrent.planned

end ChunkPlanner

/-- Plan the chunks of a list of items. -/
def planChunks (items : List ChunkPlanItem) (config : ChunkPlanningConfig) :
    Except ChunkPlanError (List PlannedChunk) := do
  config.validate
  let planner ← items.foldlM (ChunkPlanner.push config) {}
  return planner.finish

end Railgun
