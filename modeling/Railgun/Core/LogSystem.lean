import Railgun.Core.Logs
import Railgun.Lib.Runs

/-!
# Fetches Side by Side

Several calls of `getLogs` run at the same time. They share what the pool has
learned about the spans of its endpoints, with each other and with every other
user of the pool, and may share a budget of requests.

At the head of its loop a call reads the span, looks whether it is cancelled,
reserves a request and sends it. The others are only met through the span and
the budget, which are each read once, so this is one step. Anything may happen
before the answer comes. The answer is another step, and any answer is possible.

Each call keeps the requests that were answered, in order. This is for the
record only.

## Main definitions

* `LogFetchTask`: A call and how far it has got.
* `LogFetchTask.send`, `LogFetchTask.receive`: The two steps of its loop.
* `LogSystem.step`: One step of one of the calls, or of someone else.
-/

namespace Railgun

open LogRangeFetch

/-- A request that waits for its answer, and the span it was made with. -/
structure SentRequest extends LogSegment where
  span : Nat
  width_le : finish - start ≤ span - 1

/-- A request with its answer. -/
structure AnsweredRequest where
  start : Nat
  finish : Nat
  span : Nat
  logs : List Log

/-- The call is cancelled while it waits, or the provider answers. -/
inductive LogAnswer where
  | cancelled
  | provider (result : Except (Option LogRangeLimit) (List Log))

/-- A call has segments to ask for, waits for an answer, or has returned. -/
inductive LogFetchPhase where
  | pending (segments : List LogSegment)
  | waiting (request : SentRequest) (segments : List LogSegment)
  | returned (result : Except LogFetchError (List Log))

/-- The arguments of a call. -/
structure LogFetchCall where
  endpoint : LogSpanEndpoint
  maxSpan : Nat
  fromBlock : Nat
  toBlock : Nat

/-- A call under way, and what it has got so far. -/
structure LogFetchTask where
  call : LogFetchCall
  phase : LogFetchPhase
  logs : List Log
  getLogsRequests : Nat
  answered : List AnsweredRequest

/-- Count a request, if there is a budget and it is not used up. -/
def LogRequestBudget.reserve : Option LogRequestBudget →
    Except LogFetchError (Option LogRequestBudget)
  | none => .ok none
  | some budget =>
    if budget.issued < budget.limit then .ok (some { budget with issued := budget.issued + 1 })
    else .error (.logRequestBudgetExceeded budget.limit)

/-- The request for the next part of a segment. -/
def SentRequest.make (segment : LogSegment) (learned : Nat) : SentRequest where
  start := segment.start
  finish := requestEnd segment learned
  cap := segment.cap
  start_le := le_requestEnd segment learned
  span := segment.cap.elim learned fun cap => min cap learned
  width_le := by
    have hle : requestEnd segment learned ≤
        segment.start + (segment.cap.elim learned (fun cap => min cap learned) - 1) :=
      Nat.min_le_left _ _
    omega

namespace LogFetchTask

/-- A call that begins. An empty range returns at once. -/
def start (call : LogFetchCall) : LogFetchTask where
  call
  phase :=
    if h : call.toBlock < call.fromBlock then .returned (.ok [])
    else .pending [{ start := call.fromBlock, finish := call.toBlock, cap := none,
                     start_le := Nat.le_of_not_lt h }]
  logs := []
  getLogsRequests := 0
  answered := []

/-- The head of the loop: return what has been fetched, or send the next
    request. -/
def send (spans : LogSpans) (budget : Option LogRequestBudget) (cancelled : Bool)
    (task : LogFetchTask) : LogFetchTask × Option LogRequestBudget :=
  match task.phase with
  | .pending [] => ({ task with phase := .returned (.ok task.logs) }, budget)
  | .pending (segment :: segments) =>
    if cancelled then ({ task with phase := .returned (.error .logFetchCancelled) }, budget)
    else
      match LogRequestBudget.reserve budget with
      | .error error => ({ task with phase := .returned (.error error) }, budget)
      | .ok budget =>
        let request := SentRequest.make segment (spans.logSpan task.call.endpoint task.call.maxSpan)
        ({ task with
            getLogsRequests := task.getLogsRequests + 1
            phase := .waiting request (uncovered segment request.finish ++ segments) }, budget)
  | _ => (task, budget)

/-- What is done with the answer to a request. -/
def receive (spans : LogSpans) (answer : LogAnswer) (task : LogFetchTask) :
    LogFetchTask × LogSpans :=
  match task.phase, answer with
  | .waiting _ _, .cancelled =>
    ({ task with phase := .returned (.error .logFetchCancelled) }, spans)
  | .waiting request segments, .provider (.ok batch) =>
    ({ task with
        logs := task.logs ++ batch
        answered := task.answered ++
          [{ start := request.start, finish := request.finish, span := request.span,
             logs := batch }]
        phase := .pending segments }, spans)
  | .waiting _ _, .provider (.error none) =>
    ({ task with phase := .returned (.error (.rpc none)) }, spans)
  | .waiting request segments, .provider (.error (some limit)) =>
    -- A single block cannot be split.
    if h : request.finish ≤ request.start then
      ({ task with phase := .returned (.error (.rpc (some limit))) }, spans)
    else
      match limit with
      | .blockSpan maxBlocks =>
        let rejectedSpan := request.finish - request.start + 1
        ({ task with phase := .pending (request.toLogSegment :: segments) },
          spans.narrowLogSpan task.call.endpoint ((maxBlocks.filter fun maxBlocks =>
            1 ≤ maxBlocks ∧ maxBlocks < rejectedSpan).getD (rejectedSpan / 2)))
      | .resultSize =>
        ({ task with
            phase := .pending (halves request.start request.finish (by omega) ++ segments) }, spans)
  | _, _ => (task, spans)

/-- Whether the call is at the head of its loop. -/
def atHead (task : LogFetchTask) : Bool := task.phase matches .pending _

/-- Whether the call waits for an answer. -/
def awaits (task : LogFetchTask) : Bool := task.phase matches .waiting _ _

end LogFetchTask

/-- The calls, and the spans and the budget that they share. -/
structure LogSystem where
  spans : LogSpans
  budget : Option LogRequestBudget
  fetches : List LogFetchTask

/-- A step of one of the calls, or a user of the pool who narrows a span. -/
inductive LogEvent where
  | send (index : Nat) (cancelled : Bool)
  | receive (index : Nat) (answer : LogAnswer)
  | narrow (endpoint : LogSpanEndpoint) (span : Nat)

namespace LogSystem

/-- All calls begin. -/
def start (spans : LogSpans) (limit : Option Nat) (calls : List LogFetchCall) : LogSystem where
  spans
  budget := limit.map fun limit => { limit, issued := 0 }
  fetches := calls.map LogFetchTask.start

/-- One of the calls does something, with the spans and the budget. -/
def act (system : LogSystem) (index : Nat)
    (action : LogFetchTask → LogFetchTask × LogSpans × Option LogRequestBudget) : LogSystem :=
  match system.fetches[index]? with
  | none => system
  | some task =>
    let (task, spans, budget) := action task
    { spans, budget, fetches := system.fetches.set index task }

/-- What an event does. -/
def step (system : LogSystem) : LogEvent → LogSystem
  | .send index cancelled => system.act index fun task =>
    let (task, budget) := task.send system.spans system.budget cancelled
    (task, system.spans, budget)
  | .receive index answer => system.act index fun task =>
    let (task, spans) := task.receive system.spans answer
    (task, spans, system.budget)
  | .narrow endpoint span => { system with spans := system.spans.narrowLogSpan endpoint span }

/-- Whether an event is a step of one of the calls. -/
def moves (index : Nat) (system : LogSystem) : LogEvent → Bool
  | .send sender _ => sender == index && system.fetches[index]?.any LogFetchTask.atHead
  | .receive receiver _ => receiver == index && system.fetches[index]?.any LogFetchTask.awaits
  | .narrow _ _ => false

end LogSystem

end Railgun
