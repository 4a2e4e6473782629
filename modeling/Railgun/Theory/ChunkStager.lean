import Railgun.Core.ChunkStager
import Railgun.Lib.Fallible

/-!
# What is Staged

The staged ranges are disjoint, so the last one that starts before the end of a new
range ends last of all those. If it ends before the new range starts then they all
do, which is why looking at the neighbours is enough.

A run is a list of calls: chunks are staged one by one or several at once, and what
is due is taken out. Next to the stager a history keeps every chunk that was accepted
and every chunk that was returned, so that it can be said that none is lost and none
is returned twice.

## Main definitions

* `Contiguous`: Chunks that follow each other without a gap, from a start to an end.
* `ChunkStager.Sound`: What holds of the staged chunks: each is kept under its start,
  none starts before the next position, and their ranges are disjoint.
* `StagerCall`: A call of the stager.
* `StagerHistory`: A stager with the chunks it has accepted and returned.
* `ChunkStager.acceptedOf`: The chunks that staging a list accepts.
* `StagerHistory.call`: What a call does. A drain has to succeed.
* `StagerHistory.Sound`: What holds after any number of calls.

## Theorems

* `contiguous_concat`: One more chunk in its turn.
* `toList_insert_perm`: The entries after a new key is inserted.
* `rangeUpTo_spec`: If the neighbour ends before a range starts, all before it do.
* `validateStageDescriptor_eq_ok`: A range that passes is disjoint from all others.
* `Sound.insert`, `Sound.erase`: Staging and taking out keep the staged chunks sound.
* `Sound.accept`, `Sound.stageMany`: Staging chunks keeps the history sound.
* `Sound.drain`, `sound_drainLoop`: Taking chunks out keeps it sound, and nothing
  that is due is left.
* `sound_call`, `sound_calls`: What one call and any number of calls preserve.
* `chunk_stager_invariant`: What holds after any number of calls.
-/

namespace Railgun

open ChunkStager

/-- Each chunk starts right after the one before. -/
def Contiguous (start : Nat) : List VerifiedIndexedArtifactChunk → Nat → Prop
  | [], finish => finish = start
  | chunk :: chunks, finish => chunk.descriptor.range.start = start ∧
      start ≤ chunk.descriptor.range.finish ∧
      Contiguous (chunk.descriptor.range.finish + 1) chunks finish

/-- A chunk that starts where the others end extends them. -/
theorem contiguous_concat {start next : Nat} {chunks : List VerifiedIndexedArtifactChunk}
    {chunk : VerifiedIndexedArtifactChunk} (h : Contiguous start chunks next)
    (hstart : chunk.descriptor.range.start = next)
    (hle : next ≤ chunk.descriptor.range.finish) :
    Contiguous start (chunks ++ [chunk]) (chunk.descriptor.range.finish + 1) := by
  induction chunks generalizing start with
  | nil =>
    obtain rfl := h
    exact ⟨hstart, hle, rfl⟩
  | cons first chunks ih => exact ⟨h.1, h.2.1, ih h.2.2⟩

/-- A new key adds one entry to those of a map. -/
theorem toList_insert_perm {V : Type} {map : BTreeMap Nat V} {key : Nat} (value : V)
    (h : map[key]? = none) : (map.insert key value).toList.Perm ((key, value) :: map.toList) := by
  have hself : (map.insert key value)[key]? = some value := by
    rw [getElem?_insert_key, if_pos rfl]
  refine (toList_perm_cons hself).trans (.cons _ ((filter_toList_insert map key value).trans ?_))
  rw [List.filter_eq_self.mpr]
  intro entry hmem
  refine decide_eq_true fun heq => ?_
  have hentry := Std.ExtTreeMap.mem_toList_iff_getElem?_eq_some.mp hmem
  rw [heq, h] at hentry
  cases hentry

namespace ChunkStager

variable {stager : ChunkStager}

/-- Every chunk is kept under its start, which is not before the next position, and a
    range ends before the next one starts. -/
structure Sound (stager : ChunkStager) : Prop where
  keyed : ∀ {key : Nat} {chunk : VerifiedIndexedArtifactChunk},
    stager.staged[key]? = some chunk → chunk.descriptor.range.start = key ∧
      key ≤ chunk.descriptor.range.finish ∧ stager.nextRangeStart ≤ key
  disjoint : ∀ {a b : Nat} {chunk other : VerifiedIndexedArtifactChunk},
    stager.staged[a]? = some chunk → stager.staged[b]? = some other → a < b →
      chunk.descriptor.range.finish < b

/-- If the last range that starts up to a position ends before another, then every range
    that starts up to there does. -/
theorem rangeUpTo_spec (h : stager.Sound) {finish start : Nat}
    (hlast : ∀ existing, stager.rangeUpTo finish = some existing → existing.finish < start)
    {key : Nat} {chunk : VerifiedIndexedArtifactChunk} (hget : stager.staged[key]? = some chunk)
    (hkey : key ≤ finish) : chunk.descriptor.range.finish < start := by
  have hmem : (key, chunk) ∈
      stager.staged.toList.filter fun entry => decide (entry.1 ≤ finish) :=
    List.mem_filter.mpr
      ⟨Std.ExtTreeMap.mem_toList_iff_getElem?_eq_some.mpr hget, decide_eq_true hkey⟩
  have hsorted : (stager.staged.toList.filter fun entry => entry.1 ≤ finish).Pairwise
      fun a b => a.1 < b.1 :=
    (Std.ExtTreeMap.ordered_keys_toList.imp fun h => Nat.compare_eq_lt.mp h).filter _
  rw [rangeUpTo] at hlast
  cases hentry : (stager.staged.toList.filter fun entry => entry.1 ≤ finish).getLast? with
  | none =>
    rw [List.getLast?_eq_none_iff.mp hentry] at hmem
    cases hmem
  | some last =>
    obtain ⟨before, hbefore⟩ := List.getLast?_eq_some_iff.mp hentry
    have hend := hlast _ (by rw [hentry, Option.map_some])
    have hget' : stager.staged[last.1]? = some last.2 :=
      Std.ExtTreeMap.mem_toList_iff_getElem?_eq_some.mp
        (List.mem_of_mem_filter (List.mem_of_getLast? hentry))
    rw [hbefore, List.mem_append, List.mem_singleton] at hmem
    rcases hmem with hmem | rfl
    · rw [hbefore, List.pairwise_append] at hsorted
      have hlt := h.disjoint hget hget' (hsorted.2.2 _ hmem _ List.mem_cons_self)
      have := (h.keyed hget').2.1
      omega
    · exact hend

/-- A range that passes the checks is in order, is not before the next position, and
    starts after the end of the last range that starts up to its own end. -/
theorem validateStageDescriptor_eq_ok {descriptor : IndexedArtifactDescriptor}
    (h : stager.validateStageDescriptor descriptor = .ok ()) :
    descriptor.range.start ≤ descriptor.range.finish ∧
      stager.nextRangeStart ≤ descriptor.range.start ∧
      stager.staged[descriptor.range.start]? = none ∧
      ∀ existing, stager.rangeUpTo descriptor.range.finish = some existing →
        existing.finish < descriptor.range.start := by
  unfold validateStageDescriptor at h
  simp only [ite_error_eq_ok, not_lt] at h
  obtain ⟨-, -, -, hrange, hprogress, hfresh, h⟩ := h
  refine ⟨hrange, hprogress, by simpa using hfresh, fun existing hexisting => ?_⟩
  by_contra hge
  have hfilter : (some existing).filter (·.finish ≥ descriptor.range.start) = some existing :=
    if_pos (decide_eq_true (not_lt.mp hge))
  rw [hexisting, hfilter] at h
  cases h

/-- A chunk that passes the checks can be staged. -/
theorem Sound.insert (h : stager.Sound) {chunk : VerifiedIndexedArtifactChunk}
    (hok : stager.validateStageDescriptor chunk.descriptor = .ok ()) :
    Sound { stager with staged := stager.staged.insert chunk.descriptor.range.start chunk } := by
  obtain ⟨hrange, hprogress, -, hupTo⟩ := validateStageDescriptor_eq_ok hok
  -- A range that is staged ends before the new one or starts after it.
  have hbeside : ∀ {key other}, stager.staged[key]? = some other →
      other.descriptor.range.finish < chunk.descriptor.range.start ∨
        chunk.descriptor.range.finish < key := by
    intro key other hget
    rcases le_or_gt key chunk.descriptor.range.finish with hle | hlt
    · exact .inl (rangeUpTo_spec h hupTo hget hle)
    · exact .inr hlt
  constructor
  · intro key other hget
    rw [getElem?_insert_key] at hget
    split_ifs at hget with heq
    · cases hget
      exact ⟨heq, heq ▸ hrange, heq ▸ hprogress⟩
    · exact h.keyed hget
  · intro a b first second hfirst hsecond hlt
    rw [getElem?_insert_key] at hfirst hsecond
    split_ifs at hfirst hsecond
    · omega
    · cases hfirst
      have := h.keyed hsecond
      rcases hbeside hsecond with hbefore | hafter
      · omega
      · exact hafter
    · have := h.keyed hfirst
      rcases hbeside hfirst with hbefore | hafter <;> omega
    · exact h.disjoint hfirst hsecond hlt

/-- The chunk whose turn it is can be taken out. -/
theorem Sound.erase (h : stager.Sound) {chunk : VerifiedIndexedArtifactChunk}
    (hget : stager.staged[stager.nextRangeStart]? = some chunk) :
    Sound { stager with
      nextRangeStart := chunk.descriptor.range.finish + 1
      staged := stager.staged.erase stager.nextRangeStart } := by
  constructor
  · intro key other hother
    rw [getElem?_erase_key, Option.ite_none_left_eq_some] at hother
    obtain ⟨hstart, hle, hnext⟩ := h.keyed hother.2
    exact ⟨hstart, hle, h.disjoint hget hother.2 (lt_of_le_of_ne hnext hother.1)⟩
  · intro a b first second hfirst hsecond
    rw [getElem?_erase_key, Option.ite_none_left_eq_some] at hfirst hsecond
    exact h.disjoint hfirst.2 hsecond.2

end ChunkStager

/-- A call of the stager. -/
inductive StagerCall where
  | stage (chunk : VerifiedIndexedArtifactChunk)
  | stageMany (chunks : List VerifiedIndexedArtifactChunk)
  | drainContiguous

/-- A stager with all chunks it has accepted and returned so far. -/
structure StagerHistory where
  stager : ChunkStager
  accepted : List VerifiedIndexedArtifactChunk := []
  returned : List VerifiedIndexedArtifactChunk := []

/-- The chunks that are accepted, up to the first that is refused. -/
def ChunkStager.acceptedOf (stager : ChunkStager) :
    List VerifiedIndexedArtifactChunk → List VerifiedIndexedArtifactChunk
  | [] => []
  | chunk :: chunks => match stager.stage chunk with
      | (.error _, _) => []
      | (.ok (), stager) => chunk :: acceptedOf stager chunks

namespace StagerHistory

/-- What a call does to a history. There is none after a drain that failed. -/
def call (history : StagerHistory) : StagerCall → Option StagerHistory
  | .stage chunk => some { history with
      stager := (history.stager.stage chunk).2
      accepted := history.accepted ++ history.stager.acceptedOf [chunk] }
  | .stageMany chunks => some { history with
      stager := (history.stager.stageMany chunks).2
      accepted := history.accepted ++ history.stager.acceptedOf chunks }
  | .drainContiguous => match history.stager.drainContiguous with
      | (.error _, _) => none
      | (.ok ready, stager) => some { history with stager, returned := history.returned ++ ready }

/-- The staged chunks are sound, what was returned is contiguous up to the next
    position, and what was accepted is what was returned or is staged. -/
structure Sound (first : Nat) (history : StagerHistory) : Prop where
  staged : history.stager.Sound
  contiguous : Contiguous first history.returned history.stager.nextRangeStart
  accounted : history.accepted.Perm
    (history.returned ++ history.stager.staged.toList.map Prod.snd)

variable {first : Nat} {history : StagerHistory}

/-- A chunk that is accepted keeps the history sound. -/
theorem Sound.accept (h : history.Sound first) {chunk : VerifiedIndexedArtifactChunk}
    (hok : history.stager.validateStageDescriptor chunk.descriptor = .ok ()) :
    Sound first { history with
      stager := { history.stager with
        staged := history.stager.staged.insert chunk.descriptor.range.start chunk }
      accepted := history.accepted ++ [chunk] } where
  staged := h.staged.insert hok
  contiguous := h.contiguous
  accounted := by
    obtain ⟨-, -, hfresh, -⟩ := validateStageDescriptor_eq_ok hok
    have hstaged := ((toList_insert_perm chunk hfresh).map Prod.snd).append_left history.returned
    refine .trans ?_ hstaged.symm
    exact ((h.accounted.append_right [chunk]).trans
      (List.perm_append_singleton ..)).trans List.perm_middle.symm

/-- So do the chunks of a list up to the first that is refused. -/
theorem Sound.stageMany (h : history.Sound first) (chunks : List VerifiedIndexedArtifactChunk) :
    Sound first { history with
      stager := (history.stager.stageMany chunks).2
      accepted := history.accepted ++ history.stager.acceptedOf chunks } := by
  induction chunks generalizing history with
  | nil =>
    rwa [acceptedOf, List.append_nil]
  | cons chunk chunks ih =>
    unfold stageMany acceptedOf stage
    cases hok : history.stager.validateStageDescriptor chunk.descriptor with
    | error error => rwa [List.append_nil]
    | ok _ =>
      have hrest := ih (h.accept hok)
      rwa [List.append_assoc] at hrest

/-- A chunk that is taken out in its turn keeps the history sound. -/
theorem Sound.drain (h : history.Sound first) {chunk : VerifiedIndexedArtifactChunk}
    (hget : history.stager.staged[history.stager.nextRangeStart]? = some chunk) :
    Sound first { history with
      stager := { history.stager with
        nextRangeStart := chunk.descriptor.range.finish + 1
        staged := history.stager.staged.erase history.stager.nextRangeStart }
      returned := history.returned ++ [chunk] } where
  staged := h.staged.erase hget
  contiguous :=
    contiguous_concat h.contiguous (h.staged.keyed hget).1 (h.staged.keyed hget).2.1
  accounted := by
    have hback : (history.stager.staged.erase history.stager.nextRangeStart).insert
        history.stager.nextRangeStart chunk = history.stager.staged := by
      refine Std.ExtTreeMap.ext_getElem? fun key => ?_
      rw [getElem?_insert_key, getElem?_erase_key]
      split_ifs with heq
      · rw [← heq, hget]
      · rfl
    have hnone : (history.stager.staged.erase history.stager.nextRangeStart)[
        history.stager.nextRangeStart]? = none := by
      rw [getElem?_erase_key, if_pos rfl]
    have hperm := toList_insert_perm chunk hnone
    rw [hback] at hperm
    rw [List.append_assoc, List.singleton_append]
    exact h.accounted.trans ((hperm.map Prod.snd).append_left history.returned)

/-- A drain that succeeds keeps the history sound, and with a pass for every staged
    chunk it leaves none that is due. -/
theorem sound_drainLoop {accepted returned : List VerifiedIndexedArtifactChunk} {passes : Nat}
    {stager after : ChunkStager} {ready all : List VerifiedIndexedArtifactChunk}
    (h : Sound first { stager, accepted, returned := returned ++ ready })
    (hloop : drainLoop passes stager ready = (.ok all, after)) :
    Sound first { stager := after, accepted, returned := returned ++ all } ∧
      (stager.staged.size ≤ passes → after.staged[after.nextRangeStart]? = none) := by
  induction passes generalizing stager ready with
  | zero =>
    cases hloop
    refine ⟨h, fun hsize => ?_⟩
    rw [Std.ExtTreeMap.eq_empty_iff_size_eq_zero.mpr (Nat.le_zero.mp hsize)]
    exact Std.ExtTreeMap.getElem?_empty
  | succ passes ih =>
    rw [drainLoop] at hloop
    cases hget : stager.staged[stager.nextRangeStart]? with
    | none =>
      rw [hget] at hloop
      cases hloop
      exact ⟨h, fun _ => hget⟩
    | some chunk =>
      rw [hget] at hloop
      dsimp only at hloop
      split at hloop
      · cases hloop
      · have hnext := h.drain hget
        dsimp only at hnext
        rw [List.append_assoc] at hnext
        obtain ⟨hsound, hnone⟩ := ih hnext hloop
        refine ⟨hsound, fun hsize => hnone ?_⟩
        have hcontains : stager.staged.contains stager.nextRangeStart = true := by
          rw [Std.ExtTreeMap.contains_eq_isSome_getElem?, hget, Option.isSome_some]
        rw [Std.ExtTreeMap.size_erase, if_pos hcontains]
        omega

/-- Staging a list of one chunk is staging the chunk. -/
theorem stageMany_singleton (stager : ChunkStager) (chunk : VerifiedIndexedArtifactChunk) :
    stager.stageMany [chunk] = stager.stage chunk := by
  unfold stageMany
  obtain ⟨_ | _, after⟩ := stager.stage chunk <;> rfl

/-- A call keeps the history sound, and a drain leaves no chunk that is due. -/
theorem sound_call {call : StagerCall} {after : StagerHistory} (h : history.Sound first)
    (hcall : history.call call = some after) :
    after.Sound first ∧ (call = .drainContiguous →
      after.stager.staged[after.stager.nextRangeStart]? = none) := by
  cases call with
  | stage chunk =>
    cases hcall
    rw [← stageMany_singleton]
    exact ⟨h.stageMany [chunk], nofun⟩
  | stageMany chunks =>
    cases hcall
    exact ⟨h.stageMany chunks, nofun⟩
  | drainContiguous =>
    rw [call] at hcall
    rcases hdrain : history.stager.drainContiguous with ⟨error | ready, stager⟩
    · rw [hdrain] at hcall
      cases hcall
    · rw [hdrain] at hcall
      cases hcall
      have hstart : Sound first { history with returned := history.returned ++ [] } := by
        rwa [List.append_nil]
      obtain ⟨hsound, hnone⟩ := sound_drainLoop hstart hdrain
      exact ⟨hsound, fun _ => hnone (Nat.le_refl _)⟩

/-- Any number of calls keeps the history sound. -/
theorem sound_calls {calls : List StagerCall} {after : StagerHistory} (h : history.Sound first)
    (hcalls : calls.foldlM StagerHistory.call history = some after) : after.Sound first := by
  induction calls generalizing history with
  | nil =>
    cases hcalls
    exact h
  | cons call calls ih =>
    obtain ⟨next, hnext, hcalls⟩ := Option.bind_eq_some_iff.mp hcalls
    exact ih (sound_call h hnext).1 hcalls

end StagerHistory

/-- Over any number of calls the staged ranges are disjoint and none starts before
    the next position, what has been returned is contiguous up to there, and every
    chunk that was accepted has been returned once or is staged. A chunk that is
    refused changes nothing. -/
theorem chunk_stager_invariant (datasetKind : IndexedDatasetKind) (scope : ChainScope)
    (rangeKind : IndexedArtifactRangeKind) (first : Nat) (calls : List StagerCall)
    (history : StagerHistory)
    (h : calls.foldlM StagerHistory.call
      { stager := .new datasetKind scope rangeKind first } = some history) :
    history.Sound first ∧
    (∀ after, history.call .drainContiguous = some after →
      after.stager.staged[after.stager.nextRangeStart]? = none) ∧
    ∀ chunk error, (history.stager.stage chunk).1 = .error error →
      (history.stager.stage chunk).2 = history.stager := by
  have hsound : history.Sound first := by
    refine StagerHistory.sound_calls ⟨⟨?_, ?_⟩, ?_, ?_⟩ h <;>
      simp [ChunkStager.new, Contiguous]
  refine ⟨hsound, fun after hafter => (StagerHistory.sound_call hsound hafter).2 rfl, ?_⟩
  intro chunk error herror
  unfold stage at herror ⊢
  split at herror
  · rfl
  · cases herror

/-- A chunk that covers a range of blocks. -/
def sampleChunk (start finish : Nat) : VerifiedIndexedArtifactChunk where
  descriptor := ⟨.walletScan, ⟨.evm, 1, 0⟩, ⟨.block, start, finish⟩, "", {}⟩
  envelope := .ok ⟨.walletScan, .evm, .block, 0, []⟩

/-- Two chunks out of order and one that overlaps them. -/
theorem chunk_stager_invariant_two : ∃ history,
    [.stage (sampleChunk 5 9), .stageMany [sampleChunk 0 4, sampleChunk 3 6],
      .drainContiguous].foldlM StagerHistory.call
        { stager := .new .walletScan ⟨.evm, 1, 0⟩ .block 0 } = some history ∧
    history.Sound 0 := by
  obtain ⟨history, h⟩ := Option.isSome_iff_exists.mp (show ([StagerCall.stage (sampleChunk 5 9),
    .stageMany [sampleChunk 0 4, sampleChunk 3 6], .drainContiguous].foldlM StagerHistory.call
      { stager := .new .walletScan ⟨.evm, 1, 0⟩ .block 0 }).isSome = true by decide +kernel)
  exact ⟨history, h, (chunk_stager_invariant _ _ _ _ _ _ h).1⟩

end Railgun
