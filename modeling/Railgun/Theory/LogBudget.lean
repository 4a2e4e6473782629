import Railgun.Core.LogSystem
import Railgun.Theory.Logs

/-!
# Fetches End within Their Budget

A call of `getLogs` has a measure of the work it has left: the span that it may
use and the blocks it has not covered. Every step of the call makes it smaller,
and nothing that the others do makes it larger, since a span is only ever
narrowed. A request that is refused for its width was no wider than the span it
was made with, so the span is smaller afterwards, whatever others have made of
it in the meantime.

The requests that were answered and the segments on the stack tile the range of
the call, from left to right. When the stack is empty the answers do.

## Main definitions

* `LogFetchTask.Sound`: What a call knows about the requests it has made.

## Theorems

* `Sound.send`, `Sound.receive`: The steps keep what a call knows.
* `workLeft_send`, `workLeft_receive`: The steps use up the measure.
* `log_fetches_end_within_budget`: The calls end, within the budget, and what
  they return is tiled by the requests.
-/

namespace Railgun

open LogRangeFetch

/-- Ranges that cover all blocks once and in order. -/
def TilesBlocks : Nat → Nat → List (Nat × Nat) → Prop
  | fromBlock, toBlock, [] => toBlock < fromBlock
  | fromBlock, toBlock, range :: ranges =>
    range.1 = fromBlock ∧ range.1 ≤ range.2 ∧ range.2 ≤ toBlock ∧
      TilesBlocks (range.2 + 1) toBlock ranges

theorem TilesBlocks.cut {fromBlock toBlock start middle finish : Nat}
    {before after : List (Nat × Nat)} (hstart : start ≤ middle) (hfinish : middle < finish)
    (h : TilesBlocks fromBlock toBlock (before ++ (start, finish) :: after)) :
    TilesBlocks fromBlock toBlock (before ++ (start, middle) :: (middle + 1, finish) :: after) := by
  induction before generalizing fromBlock with
  | nil =>
    obtain ⟨hfrom, -, hto, hrest⟩ := h
    exact ⟨hfrom, hstart, Nat.le_of_lt (Nat.lt_of_lt_of_le hfinish hto), rfl, hfinish, hto, hrest⟩
  | cons range before ih => exact ⟨h.1, h.2.1, h.2.2.1, ih h.2.2.2⟩

/-- The blocks of a segment. -/
def LogSegment.range (segment : LogSegment) : Nat × Nat := (segment.start, segment.finish)

/-- The segments that a call still has to cover, unless it has failed. -/
def LogFetchPhase.rest : LogFetchPhase → Option (List LogSegment)
  | .pending segments => some segments
  | .waiting request segments => some (request.toLogSegment :: segments)
  | .returned (.ok _) => some []
  | .returned (.error _) => none

namespace LogFetchTask

/-- The answers so far and what is left to ask tile the range, and the logs are those of
    the answers. -/
structure Sound (task : LogFetchTask) : Prop where
  logs_eq : task.logs = task.answered.flatMap (·.logs)
  width_le : ∀ request ∈ task.answered, request.finish - request.start + 1 ≤ request.span
  span_pos : ∀ request segments, task.phase = .waiting request segments → 0 < request.span
  result_eq : ∀ logs, task.phase = .returned (.ok logs) → logs = task.logs
  cap_pos : ∀ segments, task.phase.rest = some segments →
    ∀ segment ∈ segments, ∀ cap ∈ segment.cap, 0 < cap
  tiles : ∀ segments, task.phase.rest = some segments →
    TilesBlocks task.call.fromBlock task.call.toBlock
      (task.answered.map (fun request => (request.start, request.finish)) ++
        segments.map LogSegment.range)

theorem sound_start (call : LogFetchCall) : (start call).Sound := by
  unfold start
  split_ifs with h
  · refine ⟨rfl, List.forall_mem_nil _, by rintro _ _ ⟨⟩, ?_, by rintro _ ⟨⟩ _ ⟨⟩, ?_⟩
    · rintro _ ⟨⟩
      rfl
    · rintro _ ⟨⟩
      exact h
  · refine ⟨rfl, List.forall_mem_nil _, by rintro _ _ ⟨⟩, by rintro _ ⟨⟩, ?_, ?_⟩
    · rintro _ ⟨⟩ segment hsegment cap hcap
      rw [List.mem_singleton.mp hsegment] at hcap
      cases hcap
    · rintro _ ⟨⟩
      exact ⟨rfl, Nat.le_of_not_lt h, Nat.le_refl _, Nat.lt_succ_self _⟩

theorem Sound.fail {task : LogFetchTask} (h : task.Sound) (error : LogFetchError) :
    Sound { task with phase := .returned (.error error) } :=
  ⟨h.logs_eq, h.width_le, nofun, nofun, nofun, nofun⟩

theorem Sound.rephase {task : LogFetchTask} (h : task.Sound) {phase : LogFetchPhase}
    {requests : Nat} {left left' : List LogSegment} (hleft : task.phase.rest = some left)
    (hleft' : phase.rest = some left')
    (hspan : ∀ request segments, phase = .waiting request segments → 0 < request.span)
    (hresult : ∀ logs, phase = .returned (.ok logs) → logs = task.logs)
    (hcaps : (∀ segment ∈ left, ∀ cap ∈ segment.cap, 0 < cap) →
      ∀ segment ∈ left', ∀ cap ∈ segment.cap, 0 < cap)
    (hcut : ∀ fromBlock toBlock before,
      TilesBlocks fromBlock toBlock (before ++ left.map LogSegment.range) →
      TilesBlocks fromBlock toBlock (before ++ left'.map LogSegment.range)) :
    Sound { task with phase, getLogsRequests := requests } where
  logs_eq := h.logs_eq
  width_le := h.width_le
  span_pos := hspan
  result_eq := hresult
  cap_pos := fun segments hsegments => by
    obtain rfl := Option.some.inj (hleft'.symm.trans hsegments)
    exact hcaps (h.cap_pos left hleft)
  tiles := fun segments hsegments => by
    obtain rfl := Option.some.inj (hleft'.symm.trans hsegments)
    exact hcut _ _ _ (h.tiles left hleft)

theorem logSpan_pos (spans : LogSpans) (endpoint : LogSpanEndpoint) (maxSpan : Nat) :
    0 < spans.logSpan endpoint maxSpan := by
  rw [LogSpans.logSpan]
  cases hlearned : spans.learned endpoint with
  | none => exact Nat.lt_of_lt_of_le Nat.one_pos (Nat.le_max_right _ _)
  | some learned =>
    have hpos := spans.learned_pos endpoint learned hlearned
    rw [Option.elim_some]
    omega

theorem make_span_le (segment : LogSegment) (learned : Nat) :
    (SentRequest.make segment learned).span ≤ learned := by
  dsimp only [SentRequest.make]
  cases segment.cap with
  | none => exact Nat.le_refl _
  | some cap => exact Nat.min_le_right _ _

/-- A request is cut off the front of its segment. -/
theorem make_cut (segment : LogSegment) (learned : Nat) (segments : List LogSegment)
    {fromBlock toBlock : Nat} {before : List (Nat × Nat)}
    (h : TilesBlocks fromBlock toBlock
      (before ++ (segment :: segments).map LogSegment.range)) :
    TilesBlocks fromBlock toBlock (before ++
      ((SentRequest.make segment learned).toLogSegment ::
        (uncovered segment (requestEnd segment learned) ++ segments)).map LogSegment.range) := by
  rw [uncovered]
  by_cases hend : requestEnd segment learned < segment.finish
  · rw [dif_pos hend]
    exact h.cut (le_requestEnd segment learned) hend
  · have hsame : requestEnd segment learned = segment.finish :=
      Nat.le_antisymm (Nat.min_le_right _ _) (Nat.le_of_not_lt hend)
    rw [dif_neg hend]
    simpa only [SentRequest.make, LogSegment.range, List.map_cons, List.nil_append, hsame] using h

/-- What is cut off a segment has its cap. -/
theorem uncovered_cap {segment other : LogSegment} {covered : Nat}
    (h : other ∈ uncovered segment covered) : other.cap = segment.cap := by
  rw [uncovered] at h
  split_ifs at h
  · rw [List.mem_singleton.mp h]
  · cases h

/-- Sending keeps what a call knows. -/
theorem Sound.send {task : LogFetchTask} (h : task.Sound) (spans : LogSpans)
    (budget : Option LogRequestBudget) (cancelled : Bool) :
    (task.send spans budget cancelled).1.Sound := by
  obtain ⟨call, phase, logs, requests, answered⟩ := task
  rcases phase with (_ | ⟨segment, segments⟩) | ⟨request, segments⟩ | result
  · exact h.rephase rfl rfl nofun (fun logs hlogs => by cases hlogs; rfl) id (fun _ _ _ => id)
  · dsimp only [LogFetchTask.send]
    split_ifs
    · exact h.fail _
    cases LogRequestBudget.reserve budget with
    | error error => exact h.fail _
    | ok reserved =>
      refine h.rephase rfl rfl ?_ nofun ?_ (fun _ _ _ => make_cut _ _ _)
      · rintro _ _ ⟨⟩
        have hlearned := logSpan_pos spans call.endpoint call.maxSpan
        dsimp only [SentRequest.make]
        cases hcap : segment.cap with
        | none => exact hlearned
        | some cap =>
          exact Nat.lt_min.mpr ⟨h.cap_pos _ rfl segment List.mem_cons_self cap hcap, hlearned⟩
      · intro hcaps
        obtain ⟨hhere, hrest⟩ := List.forall_mem_cons.mp hcaps
        refine List.forall_mem_cons.mpr ⟨hhere, List.forall_mem_append.mpr ⟨?_, hrest⟩⟩
        exact fun other hother => (uncovered_cap hother).symm ▸ hhere
  · exact h
  · exact h

-- A call at the head of its loop neither waits nor has returned.
theorem pending_span_pos (left : List LogSegment) (request : SentRequest)
    (segments : List LogSegment) (h : LogFetchPhase.pending left = .waiting request segments) :
    0 < request.span := by
  cases h

theorem pending_result_eq (left : List LogSegment) (taken logs : List Log)
    (h : LogFetchPhase.pending left = .returned (.ok logs)) : logs = taken := by
  cases h

/-- Receiving an answer keeps what a call knows. -/
theorem Sound.receive {task : LogFetchTask} (h : task.Sound) (spans : LogSpans)
    (answer : LogAnswer) : (task.receive spans answer).1.Sound := by
  obtain ⟨call, phase, logs, requests, answered⟩ := task
  rcases phase with segments | ⟨request, segments⟩ | result
  · exact h
  · rcases answer with _ | (_ | limit) | batch
    · exact h.fail _
    · exact h.fail _
    · dsimp only [LogFetchTask.receive]
      split_ifs with hsingle
      · exact h.fail _
      cases limit with
      | blockSpan maxBlocks =>
        exact h.rephase rfl rfl (pending_span_pos _) (pending_result_eq _ _) id (fun _ _ _ => id)
      | resultSize =>
        refine h.rephase rfl rfl (pending_span_pos _) (pending_result_eq _ _) ?_ ?_
        · intro hcaps
          rw [halves, List.cons_append, List.forall_mem_cons, List.singleton_append,
            List.forall_mem_cons]
          refine ⟨?_, ?_, (List.forall_mem_cons.mp hcaps).2⟩
          all_goals rintro _ ⟨⟩; omega
        · intro fromBlock toBlock before htiles
          exact htiles.cut (by dsimp only; omega) (by dsimp only; omega)
    · have hspan := h.span_pos request segments rfl
      have hwidth := request.width_le
      refine ⟨?_, ?_, pending_span_pos _, pending_result_eq _ _, ?_, ?_⟩
      · exact (congrArg (· ++ batch) h.logs_eq).trans (by simp [LogFetchTask.receive])
      · refine List.forall_mem_append.mpr ⟨h.width_le, List.forall_mem_singleton.mpr ?_⟩
        dsimp only
        omega
      · rintro _ ⟨⟩
        exact (List.forall_mem_cons.mp (h.cap_pos _ rfl)).2
      · rintro _ ⟨⟩
        have htiles := h.tiles _ rfl
        simpa [LogFetchTask.receive, LogSegment.range] using htiles
  · exact h

/-- The work that a call has left. While it waits, the span its request was made
    with counts, even if others have narrowed it. -/
def workLeft (spans : LogSpans) (task : LogFetchTask) : Nat :=
  let learned := spans.logSpan task.call.endpoint task.call.maxSpan
  match task.phase with
  | .pending segments => 2 * (learned + segmentsWeight segments) + 1
  | .waiting request segments =>
    2 * (max request.span learned + segmentsWeight (request.toLogSegment :: segments))
  | .returned _ => 0

theorem workLeft_narrow (spans : LogSpans) (endpoint : LogSpanEndpoint) (span : Nat)
    (task : LogFetchTask) :
    task.workLeft (spans.narrowLogSpan endpoint span) ≤ task.workLeft spans := by
  have hspan : (spans.narrowLogSpan endpoint span).logSpan task.call.endpoint task.call.maxSpan ≤
      spans.logSpan task.call.endpoint task.call.maxSpan := by
    by_cases hendpoint : task.call.endpoint = endpoint
    · rw [hendpoint, logSpan_narrow]
      exact Nat.min_le_left _ _
    · rw [LogSpans.logSpan, LogSpans.narrowLogSpan]
      dsimp only
      rw [if_neg hendpoint]
      exact Nat.le_refl _
  unfold workLeft
  dsimp only
  split <;> omega

/-- A request that is sent uses up work. -/
theorem workLeft_send (spans : LogSpans) (budget : Option LogRequestBudget) (cancelled : Bool)
    (task : LogFetchTask) :
    (if task.atHead then 1 else 0) + (task.send spans budget cancelled).1.workLeft spans ≤
      task.workLeft spans := by
  obtain ⟨call, phase, logs, requests, answered⟩ := task
  cases phase with
  | pending segments =>
    cases segments with
    | nil =>
      simp only [send, atHead, workLeft, if_true]
      omega
    | cons segment segments =>
      cases hcancelled : cancelled
      case true =>
        simp only [send, atHead, workLeft, if_true]
        omega
      cases hreserve : LogRequestBudget.reserve budget with
      | error error =>
        simp only [send, atHead, workLeft, hreserve, Bool.false_eq_true, if_false, if_true]
        omega
      | ok reserved =>
        simp only [send, atHead, workLeft, hreserve, Bool.false_eq_true, if_false, if_true]
        have hweight := segmentsWeight_uncovered segment
          (le_requestEnd segment (spans.logSpan call.endpoint call.maxSpan))
          (Nat.min_le_right _ _) segments
        rw [Nat.max_eq_right (make_span_le segment _), segmentsWeight_cons]
        dsimp only [SentRequest.make]
        omega
  | waiting request segments => exact Nat.le_of_eq (Nat.zero_add _)
  | returned result => exact Nat.le_of_eq (Nat.zero_add _)

/-- So does an answer that was awaited. -/
theorem workLeft_receive (spans : LogSpans) (answer : LogAnswer) (task : LogFetchTask) :
    (if task.awaits then 1 else 0) +
        (task.receive spans answer).1.workLeft (task.receive spans answer).2 ≤
      task.workLeft spans := by
  obtain ⟨call, phase, logs, requests, answered⟩ := task
  cases phase with
  | pending segments => exact Nat.le_of_eq (Nat.zero_add _)
  | returned result => exact Nat.le_of_eq (Nat.zero_add _)
  | waiting request segments =>
    rcases answer with _ | (_ | limit) | batch
    all_goals simp only [receive, awaits, workLeft, if_true]
    all_goals rw [segmentsWeight_cons]
    · omega
    · omega
    · by_cases hsingle : request.finish ≤ request.start
      · rw [dif_pos hsingle]
        dsimp only
        omega
      rw [dif_neg hsingle]
      have hwidth := request.width_le
      cases limit with
      | blockSpan maxBlocks =>
        have hbounds := nextSpan_bounds maxBlocks
          (by omega : 1 < request.finish - request.start + 1)
        dsimp only
        rw [logSpan_narrow, segmentsWeight_cons]
        omega
      | resultSize =>
        dsimp only [halves]
        rw [List.cons_append, List.singleton_append, segmentsWeight_cons, segmentsWeight_cons]
        dsimp only
        omega
    · omega

theorem send_reserves (spans : LogSpans) (budget : Option LogRequestBudget) (cancelled : Bool)
    (task : LogFetchTask) :
    ((task.send spans budget cancelled).2 = budget ∧
        (task.send spans budget cancelled).1.getLogsRequests = task.getLogsRequests) ∨
      (LogRequestBudget.reserve budget = .ok (task.send spans budget cancelled).2 ∧
        (task.send spans budget cancelled).1.getLogsRequests = task.getLogsRequests + 1) := by
  obtain ⟨call, phase, logs, requests, answered⟩ := task
  rcases phase with (_ | ⟨segment, segments⟩) | _ | _
  · exact .inl ⟨rfl, rfl⟩
  · dsimp only [send]
    split_ifs
    · exact .inl ⟨rfl, rfl⟩
    cases LogRequestBudget.reserve budget with
    | error error => exact .inl ⟨rfl, rfl⟩
    | ok reserved => exact .inr ⟨rfl, rfl⟩
  · exact .inl ⟨rfl, rfl⟩
  · exact .inl ⟨rfl, rfl⟩

theorem send_call (spans : LogSpans) (budget : Option LogRequestBudget) (cancelled : Bool)
    (task : LogFetchTask) : (task.send spans budget cancelled).1.call = task.call := by
  unfold send
  split
  · rfl
  · split
    · rfl
    split <;> rfl
  · rfl

theorem receive_call (spans : LogSpans) (answer : LogAnswer) (task : LogFetchTask) :
    (task.receive spans answer).1.call = task.call ∧
      (task.receive spans answer).1.getLogsRequests = task.getLogsRequests := by
  unfold receive
  split
  case h_4 =>
    split
    · exact ⟨rfl, rfl⟩
    split <;> exact ⟨rfl, rfl⟩
  all_goals exact ⟨rfl, rfl⟩

theorem receive_spans_le (spans : LogSpans) (answer : LogAnswer) (task other : LogFetchTask) :
    other.workLeft (task.receive spans answer).2 ≤ other.workLeft spans := by
  unfold receive
  split
  case h_4 =>
    split
    · exact Nat.le_refl _
    split
    · exact other.workLeft_narrow _ _ _
    · exact Nat.le_refl _
  all_goals exact Nat.le_refl _

end LogFetchTask

theorem sum_map_set {α : Type} (f : α → Nat) {list : List α} {index : Nat} {a : α}
    (h : list[index]? = some a) (b : α) :
    ((list.set index b).map f).sum + f a = (list.map f).sum + f b := by
  induction list generalizing index with
  | nil => cases h
  | cons head tail ih =>
    cases index with
    | zero =>
      cases h
      simp only [List.set_cons_zero, List.map_cons, List.sum_cons]
      omega
    | succ index =>
      have htail := ih h
      simp only [List.set_cons_succ, List.map_cons, List.sum_cons]
      omega

namespace LogSystem

/-- What holds of all calls together. -/
structure Accounted (limit : Option Nat) (calls : List LogFetchCall) (system : LogSystem) :
    Prop where
  calls_eq : system.fetches.map LogFetchTask.call = calls
  sound : ∀ task ∈ system.fetches, task.Sound
  limit_eq : system.budget.map LogRequestBudget.limit = limit
  issued_eq : ∀ budget ∈ system.budget, budget.issued ≤ budget.limit ∧
    (system.fetches.map LogFetchTask.getLogsRequests).sum = budget.issued

variable {limit : Option Nat} {calls : List LogFetchCall}

theorem accounted_start (spans : LogSpans) (limit : Option Nat) (calls : List LogFetchCall) :
    (start spans limit calls).Accounted limit calls where
  calls_eq := by
    rw [start, List.map_map]
    exact List.map_id' calls
  sound := by
    intro task htask
    obtain ⟨call, -, rfl⟩ := List.mem_map.mp htask
    exact LogFetchTask.sound_start call
  limit_eq := by cases limit <;> rfl
  issued_eq := by
    intro budget hbudget
    obtain ⟨limit, -, rfl⟩ := Option.map_eq_some_iff.mp hbudget
    refine ⟨Nat.zero_le _, ?_⟩
    rw [start, List.map_map]
    change (calls.map fun _ => 0).sum = 0
    simp

theorem Accounted.act {system : LogSystem} (h : system.Accounted limit calls) (index : Nat)
    {action : LogFetchTask → LogFetchTask × LogSpans × Option LogRequestBudget}
    (hcall : ∀ task, (action task).1.call = task.call)
    (hsound : ∀ task, task.Sound → (action task).1.Sound)
    (hlimit : ∀ task, (action task).2.2.map LogRequestBudget.limit =
      system.budget.map LogRequestBudget.limit)
    (hissued : ∀ task, ∀ after ∈ (action task).2.2, ∃ before ∈ system.budget,
      (before.issued ≤ before.limit → after.issued ≤ after.limit) ∧
      after.issued + task.getLogsRequests = before.issued + (action task).1.getLogsRequests) :
    (system.act index action).Accounted limit calls := by
  rw [LogSystem.act]
  cases htask : system.fetches[index]? with
  | none => exact h
  | some task =>
    refine ⟨?_, ?_, (hlimit task).trans h.limit_eq, ?_⟩
    · obtain ⟨hindex, rfl⟩ := List.getElem?_eq_some_iff.mp htask
      rw [← h.calls_eq]
      rw [List.map_set, hcall, ← List.map_set, List.set_getElem_self]
    · intro other hother
      rcases List.mem_or_eq_of_mem_set hother with hmem | rfl
      · exact h.sound other hmem
      · exact hsound task (h.sound task (List.mem_of_getElem? htask))
    · intro after hafter
      obtain ⟨before, hbefore, hle, hcount⟩ := hissued task after hafter
      obtain ⟨hissued, hsent⟩ := h.issued_eq before hbefore
      have hsum := sum_map_set LogFetchTask.getLogsRequests htask (action task).1
      dsimp only
      omega

theorem reserve_eq_ok {budget reserved : Option LogRequestBudget}
    (h : LogRequestBudget.reserve budget = .ok reserved) :
    reserved.map LogRequestBudget.limit = budget.map LogRequestBudget.limit ∧
      ∀ after ∈ reserved, ∃ before ∈ budget,
        after.issued ≤ after.limit ∧ after.issued = before.issued + 1 := by
  cases budget with
  | none =>
    cases h
    exact ⟨rfl, nofun⟩
  | some budget =>
    rw [LogRequestBudget.reserve] at h
    by_cases hissued : budget.issued < budget.limit
    · rw [if_pos hissued] at h
      cases h
      refine ⟨rfl, ?_⟩
      rintro _ ⟨⟩
      exact ⟨budget, rfl, hissued, rfl⟩
    · rw [if_neg hissued] at h
      cases h

/-- One event of any task keeps the accounts. -/
theorem Accounted.step {system : LogSystem} (h : system.Accounted limit calls) (event : LogEvent) :
    (system.step event).Accounted limit calls := by
  cases event with
  | narrow endpoint span => exact ⟨h.calls_eq, h.sound, h.limit_eq, h.issued_eq⟩
  | receive index answer =>
    rw [LogSystem.step]
    refine h.act index (fun task => (task.receive_call _ _).1)
      (fun _ hsound => hsound.receive _ _) (fun _ => rfl) fun task budget hbudget => ?_
    exact ⟨budget, hbudget, id, by rw [(task.receive_call _ _).2]⟩
  | send index cancelled =>
    rw [LogSystem.step]
    refine h.act index (fun task => task.send_call _ _ _) (fun _ hsound => hsound.send _ _ _)
      (fun task => ?_) fun task after hafter => ?_
    all_goals rcases task.send_reserves system.spans system.budget cancelled with
        ⟨hbudget, hrequests⟩ | ⟨hreserve, hrequests⟩
    · rw [hbudget]
    · exact (reserve_eq_ok hreserve).1
    · exact ⟨after, hbudget ▸ hafter, id, by rw [hrequests]⟩
    · obtain ⟨before, hbefore, hle, hnext⟩ := (reserve_eq_ok hreserve).2 after hafter
      exact ⟨before, hbefore, fun _ => hle, by dsimp only; omega⟩

/-- The work that one of the calls has left. -/
def workLeft (index : Nat) (system : LogSystem) : Nat :=
  system.fetches[index]?.elim 0 (·.workLeft system.spans)

theorem workLeft_act {system : LogSystem} (index other : Nat) {counts : LogFetchTask → Bool}
    {action : LogFetchTask → LogFetchTask × LogSpans × Option LogRequestBudget}
    (hself : ∀ task, (if counts task then 1 else 0) + (action task).1.workLeft (action task).2.1 ≤
      task.workLeft system.spans)
    (hother : ∀ task task' : LogFetchTask,
      task'.workLeft (action task).2.1 ≤ task'.workLeft system.spans) :
    (if other == index && system.fetches[index]?.any counts then 1 else 0) +
        (system.act other action).workLeft index ≤ system.workLeft index := by
  rw [act, workLeft, workLeft]
  cases htask : system.fetches[other]? with
  | none =>
    by_cases hindex : other = index
    · subst hindex
      rw [htask]
      simp
    · simp [hindex]
  | some task =>
    by_cases hindex : other = index
    · subst hindex
      rw [List.getElem?_set_self (List.getElem?_eq_some_iff.mp htask).1, htask]
      simpa using hself task
    · rw [List.getElem?_set_ne hindex]
      cases system.fetches[index]? with
      | none => simp
      | some task' => simpa [hindex] using hother task task'

/-- An event that moves a task leaves it less work. -/
theorem workLeft_step (index : Nat) (system : LogSystem) (event : LogEvent) :
    (if system.moves index event then 1 else 0) + (system.step event).workLeft index ≤
      system.workLeft index := by
  cases event with
  | narrow endpoint span =>
    rw [moves, if_neg Bool.false_ne_true, Nat.zero_add, workLeft, workLeft]
    dsimp only [step]
    cases system.fetches[index]? with
    | none => exact Nat.le_refl _
    | some task => exact task.workLeft_narrow _ _ _
  | send sender cancelled =>
    exact workLeft_act index sender (fun task => task.workLeft_send _ _ _)
      fun _ _ => Nat.le_refl _
  | receive receiver answer =>
    exact workLeft_act index receiver (fun task => task.workLeft_receive _ _)
      fun task task' => task.receive_spans_le _ _ task'

/-- Calls that run side by side, whatever the providers answer and whatever
    others make of the learned spans. All together send no more requests than
    the budget has. Each call takes a bounded number of steps, and can take one
    unless it has returned: it can send at the head of its loop, and go on with
    any answer when it waits. If it returns logs, the requests that were answered
    tile its range in order, none is wider than the span it was made with, and the
    logs are theirs in that order. -/
theorem log_fetches_end_within_budget (spans : LogSpans) (limit : Option Nat)
    (calls : List LogFetchCall) (events : List LogEvent) :
    let system := runAll step (start spans limit calls) events
    (∀ bound ∈ limit, (system.fetches.map LogFetchTask.getLogsRequests).sum ≤ bound) ∧
    ∀ index call, calls[index]? = some call →
      ∃ task, system.fetches[index]? = some task ∧ task.call = call ∧
        occurrences step (moves index) (start spans limit calls) events ≤
          2 * (max call.maxSpan 1 + 2 * (call.toBlock - call.fromBlock) + 1) + 1 ∧
        ((∃ result, task.phase = .returned result) ∨
          (∀ cancelled, system.moves index (.send index cancelled) = true) ∨
          ∀ answer, system.moves index (.receive index answer) = true) ∧
        ∀ logs, task.phase = .returned (.ok logs) →
          TilesBlocks call.fromBlock call.toBlock
            (task.answered.map fun request => (request.start, request.finish)) ∧
          (∀ request ∈ task.answered, request.finish - request.start + 1 ≤ request.span) ∧
          logs = task.answered.flatMap (·.logs) := by
  intro system
  have hall : system.Accounted limit calls :=
    List.foldlRecOn events step (accounted_start spans limit calls) fun _ h event _ => h.step event
  refine ⟨fun bound hbound => ?_, fun index call hcall => ?_⟩
  · obtain ⟨budget, hbudget, rfl⟩ := Option.map_eq_some_iff.mp (hall.limit_eq.trans hbound)
    obtain ⟨hle, hsent⟩ := hall.issued_eq budget hbudget
    omega
  · have hmap : (system.fetches.map LogFetchTask.call)[index]? = some call := by
      rw [hall.calls_eq, hcall]
    rw [List.getElem?_map] at hmap
    obtain ⟨task, htask, rfl⟩ := Option.map_eq_some_iff.mp hmap
    have hsound := hall.sound task (List.mem_of_getElem? htask)
    refine ⟨task, htask, rfl, ?_, ?_, fun logs hlogs => ⟨?_, hsound.width_le, ?_⟩⟩
    · refine Nat.le_trans (occurrences_le (workLeft_step index) _ events) ?_
      have hspan := logSpan_le spans task.call.endpoint task.call.maxSpan
      rw [workLeft, start]
      rw [List.getElem?_map, hcall, Option.map_some, Option.elim_some, LogFetchTask.workLeft,
        LogFetchTask.start]
      by_cases hempty : task.call.toBlock < task.call.fromBlock
      · rw [dif_pos hempty]
        exact Nat.zero_le _
      · rw [dif_neg hempty]
        dsimp only
        rw [segmentsWeight_cons, show segmentsWeight [] = 0 from rfl]
        dsimp only
        omega
    · cases hphase : task.phase with
      | returned result => exact .inl ⟨result, rfl⟩
      | pending segments =>
        simp [moves, htask, LogFetchTask.atHead, hphase]
      | waiting request segments =>
        simp [moves, htask, LogFetchTask.awaits, hphase]
    · have htiles := hsound.tiles [] (by rw [hlogs]; rfl)
      rwa [List.map_nil, List.append_nil] at htiles
    · rw [hsound.result_eq logs hlogs, hsound.logs_eq]

end LogSystem

end Railgun
