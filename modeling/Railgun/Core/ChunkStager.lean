import Railgun.Core.Artifacts

/-!
# Staging Chunks

Chunks that have been fetched arrive in any order and are staged until the chunks
before them are there. A chunk is refused if its range is not in order or overlaps
the range of a chunk that is staged. Only the two neighbours of the new range are
looked at.

## Main definitions

* `ChunkStager`: The chunks that wait, and where the next one has to start.
* `ChunkStager.stage`, `ChunkStager.stageMany`: Adding chunks.
* `ChunkStager.drainContiguous`: Taking out the chunks whose turn it is.
-/

namespace Railgun

/-- Why a chunk is refused, or cannot be taken out. -/
inductive StageError where
  | datasetMismatch (expected actual : IndexedDatasetKind)
  | scopeMismatch (expected actual : ChainScope)
  | rangeKindMismatch (expected actual : IndexedArtifactRangeKind)
  | invalidRange (start finish : Nat)
  | beforeProgress (nextRangeStart chunkStart chunkEnd : Nat)
  | duplicateRangeStart (start : Nat)
  | rangeOverlap (existingStart existingEnd chunkStart chunkEnd : Nat)
  | rangeEndOverflow (finish : Nat)
deriving DecidableEq, Repr

/-- The chunks that wait for their turn, by the start of their range. -/
structure ChunkStager where
  datasetKind : IndexedDatasetKind
  scope : ChainScope
  rangeKind : IndexedArtifactRangeKind
  nextRangeStart : Nat
  staged : BTreeMap Nat VerifiedIndexedArtifactChunk

namespace ChunkStager

/-- A stager of chunks of one kind, with nothing staged. -/
def new (datasetKind : IndexedDatasetKind) (scope : ChainScope)
    (rangeKind : IndexedArtifactRangeKind) (nextRangeStart : Nat) : ChunkStager :=
  { datasetKind, scope, rangeKind, nextRangeStart, staged := ∅ }

variable (stager : ChunkStager)

/-- The staged range with the largest start up to a position. -/
def rangeUpTo (finish : Nat) : Option IndexedArtifactRange :=
  (stager.staged.toList.filter fun entry => entry.1 ≤ finish).getLast?.map
    (·.2.descriptor.range)

/-- The staged range with the smallest start from a position on. -/
def rangeFrom (start : Nat) : Option IndexedArtifactRange :=
  (stager.staged.toList.find? fun entry => start ≤ entry.1).map (·.2.descriptor.range)

/-- A chunk is of the stager's kind, its range is in order and starts at the next
    position or later, and it overlaps neither neighbour. -/
def validateStageDescriptor (descriptor : IndexedArtifactDescriptor) : Except StageError Unit :=
  let range := descriptor.range
  let overlap (existing : IndexedArtifactRange) : StageError :=
    .rangeOverlap existing.start existing.finish range.start range.finish
  if descriptor.datasetKind ≠ stager.datasetKind then
    .error (.datasetMismatch stager.datasetKind descriptor.datasetKind)
  else if descriptor.scope ≠ stager.scope then
    .error (.scopeMismatch stager.scope descriptor.scope)
  else if range.kind ≠ stager.rangeKind then
    .error (.rangeKindMismatch stager.rangeKind range.kind)
  else if range.start > range.finish then
    .error (.invalidRange range.start range.finish)
  else if range.start < stager.nextRangeStart then
    .error (.beforeProgress stager.nextRangeStart range.start range.finish)
  else if stager.staged.contains range.start then
    .error (.duplicateRangeStart range.start)
  else match (stager.rangeUpTo range.finish).filter (·.finish ≥ range.start) with
    | some existing => .error (overlap existing)
    | none => match (stager.rangeFrom range.start).filter (·.start ≤ range.finish) with
        | some existing => .error (overlap existing)
        | none => .ok ()

/-- Stage a chunk if it passes the checks. -/
def stage (chunk : VerifiedIndexedArtifactChunk) : Except StageError Unit × ChunkStager :=
  match stager.validateStageDescriptor chunk.descriptor with
  | .error error => (.error error, stager)
  | .ok () =>
    (.ok (), { stager with staged := stager.staged.insert chunk.descriptor.range.start chunk })

/-- The chunks before the first one that is refused are staged. -/
def stageMany (stager : ChunkStager) :
    List VerifiedIndexedArtifactChunk → Except StageError Unit × ChunkStager
  | [] => (.ok (), stager)
  | chunk :: chunks => match stager.stage chunk with
      | (.error error, stager) => (.error error, stager)
      | (.ok (), stager) => stageMany stager chunks

/-- The loop of `drainContiguous`. Each pass takes a chunk out, so that there are at
    most as many as there are chunks. -/
def drainLoop : Nat → ChunkStager → List VerifiedIndexedArtifactChunk →
    Except StageError (List VerifiedIndexedArtifactChunk) × ChunkStager
  | 0, stager, ready => (.ok ready, stager)
  | passes + 1, stager, ready =>
    match stager.staged[stager.nextRangeStart]? with
    | none => (.ok ready, stager)
    | some chunk =>
      let finish := chunk.descriptor.range.finish
      if 2 ^ 64 ≤ finish + 1 then (.error (.rangeEndOverflow finish), stager)
      else
        drainLoop passes { stager with
          nextRangeStart := finish + 1
          staged := stager.staged.erase stager.nextRangeStart } (ready ++ [chunk])

/-- Take out all chunks whose turn it is. -/
def drainContiguous : Except StageError (List VerifiedIndexedArtifactChunk) × ChunkStager :=
  drainLoop stager.staged.size stager []

end ChunkStager

end Railgun
