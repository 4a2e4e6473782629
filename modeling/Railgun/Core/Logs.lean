import Railgun.Core.Types
import Railgun.Lib.Stateful

/-!
# Fetching Logs

The logs of a range of blocks, as the chain service asks for them. Which events
a contract has emitted depends on the block: commitments in the old format up to
a start block, transactions and shields from there on, and shields in the old
format up to another block. A range within one period is read with a single
filter; a range that crosses a period is read with one filter per kind of event.

A provider may refuse a request because it spans too many blocks or has too many
results. The request is then narrowed, and what it has not covered stays on a
stack of segments. The span that an endpoint accepts is remembered.

Blocks up to an archive boundary are read from the archive endpoint, if there is
one, and later blocks from the provider.

Providers and the cancellation of a fetch are parameters. They may depend on how
many requests have been sent. An error answer is kept only as what the service
reads from it: whether it is a limit on the range, and which. The loop over the
segments takes fuel, and running out of it is an error of its own.

## Main definitions

* `EventSignature`, `Log`, `LogFilter`, `LogRequest`: What is asked for.
* `LogSpans`, `LogRequestBudget`, `LogServer`, `LogRangeFetch`: The state of a fetch.
* `LogSegment`, `LogRangeFetch.round`, `LogRangeFetch.loop`: The loop over the segments.
* `fetchLogsForRangeWithProvider`: The logs of a range from one endpoint.
* `fetchLogsForLogicalRange`: The logs of a range on both sides of the archive
  boundary.
-/

namespace Railgun

/-- The first topic of a log: one of the events that are asked for, or
    another. -/
inductive EventSignature where
  | commitmentBatch
  | generatedCommitmentBatch
  | nullifiers
  | nullified
  | transact
  | legacyShield
  | shield
  | other (hash : Bytes32)
deriving DecidableEq

/-- An event that a contract has emitted. -/
structure Log where
  address : Address
  signature : EventSignature
  blockNumber : Nat
  logIndex : Nat
  data : List UInt8
deriving DecidableEq

/-- The contract and the events that are asked for. -/
structure LogFilter where
  address : Address
  eventSignature : List EventSignature

/-- A filter for a range of blocks. -/
structure LogRequest where
  filter : LogFilter
  fromBlock : Nat
  toBlock : Nat

/-- Whether a log is asked for by a request. -/
def LogRequest.matches (request : LogRequest) (log : Log) : Bool :=
  decide (log.address = request.filter.address) &&
    decide (log.signature ∈ request.filter.eventSignature) &&
    decide (request.fromBlock ≤ log.blockNumber ∧ log.blockNumber ≤ request.toBlock)

/-- An endpoint with its own limit on the span of requests. -/
inductive LogSpanEndpoint where
  | provider (index : Nat)
  | archive
deriving DecidableEq

/-- What an error answer says about the range of the request. -/
inductive LogRangeLimit where
  | blockSpan (maxBlocks : Option Nat)
  | resultSize
deriving DecidableEq

/-- The ways in which a fetch fails. -/
inductive LogFetchError where
  | rpc (limit : Option LogRangeLimit)
  | archiveRpcUnverified
  | logFetchCancelled
  | logRequestBudgetExceeded (limit : Nat)
deriving DecidableEq

/-- The narrowest span that each endpoint has accepted. -/
structure LogSpans where
  learned : LogSpanEndpoint → Option Nat
  learned_pos : ∀ endpoint span, learned endpoint = some span → 0 < span

namespace LogSpans

/-- The span to request from an endpoint. -/
def logSpan (spans : LogSpans) (endpoint : LogSpanEndpoint) (maxSpan : Nat) : Nat :=
  (spans.learned endpoint).elim (max maxSpan 1) fun learned => min learned (max maxSpan 1)

/-- Remember that an endpoint needs requests of at most this span. -/
def narrowLogSpan (spans : LogSpans) (endpoint : LogSpanEndpoint) (span : Nat) : LogSpans where
  learned := fun other =>
    if other = endpoint then
      some ((spans.learned endpoint).elim (max span 1) fun learned => min learned (max span 1))
    else spans.learned other
  learned_pos := by
    intro other narrowed h
    by_cases hother : other = endpoint
    · rw [if_pos hother, Option.some.injEq] at h
      cases hlearned : spans.learned endpoint with
      | none =>
        rw [hlearned, Option.elim_none] at h
        omega
      | some learned =>
        have hpos := spans.learned_pos endpoint learned hlearned
        rw [hlearned, Option.elim_some] at h
        omega
    · rw [if_neg hother] at h
      exact spans.learned_pos other narrowed h

end LogSpans

/-- The requests that may be sent, and those that have been reserved. -/
structure LogRequestBudget where
  limit : Nat
  issued : Nat

/-- The providers, and whether the fetch is cancelled, after so many
    requests. -/
structure LogServer where
  getLogs : LogSpanEndpoint → Nat → LogRequest → Except (Option LogRangeLimit) (List Log)
  cancelled : Nat → Bool

/-- The requests that cover one logical range. -/
structure LogRangeFetch where
  spans : LogSpans
  getLogsRequests : Nat
  budget : Option LogRequestBudget

/-- Fetching fails with an error, or without one if it runs out of fuel. -/
abbrev LogFetchM := Stateful LogRangeFetch (Option LogFetchError)

/-- Blocks that have not been covered, and the widest request for them after an
    answer with too many results. -/
structure LogSegment where
  start : Nat
  finish : Nat
  cap : Option Nat
  start_le : start ≤ finish

namespace LogRangeFetch

/-- Reserve a request, if there is a budget. -/
def reserve : LogFetchM Unit := do
  let fetch ← get
  match fetch.budget with
  | none => return
  | some budget =>
    if budget.issued < budget.limit then
      set { fetch with budget := some { budget with issued := budget.issued + 1 } }
    else throw (some (.logRequestBudgetExceeded budget.limit))

/-- The last block of the next request for a segment. -/
def requestEnd (segment : LogSegment) (learned : Nat) : Nat :=
  min (segment.start + (segment.cap.elim learned (fun cap => min cap learned) - 1)) segment.finish

theorem le_requestEnd (segment : LogSegment) (learned : Nat) :
    segment.start ≤ requestEnd segment learned :=
  Nat.le_min.mpr ⟨Nat.le_add_right _ _, segment.start_le⟩

/-- What stays uncovered behind a request. -/
def uncovered (segment : LogSegment) (requestEnd : Nat) : List LogSegment :=
  if h : requestEnd < segment.finish then
    [{ start := requestEnd + 1, finish := segment.finish, cap := segment.cap, start_le := h }]
  else []

/-- The two halves of a request with too many results. -/
def halves (start requestEnd : Nat) (h : start < requestEnd) : List LogSegment :=
  let rejectedSpan := requestEnd - start + 1
  let firstSpan := rejectedSpan / 2
  let firstEnd := start + firstSpan - 1
  [{ start, finish := firstEnd, cap := some firstSpan, start_le := by omega },
    { start := firstEnd + 1, finish := requestEnd, cap := some (rejectedSpan - firstSpan),
      start_le := by omega }]

/-- The request for a segment, and what has to be covered afterwards. -/
def round (server : LogServer) (maxSpan : Nat) (endpoint : LogSpanEndpoint) (filter : LogFilter)
    (segment : LogSegment) (pending : List LogSegment) (logs : List Log) :
    LogFetchM (List LogSegment × List Log) := do
  let fetch ← get
  let requestEnd := requestEnd segment (fetch.spans.logSpan endpoint maxSpan)
  let pending := uncovered segment requestEnd ++ pending
  if server.cancelled fetch.getLogsRequests then throw (some .logFetchCancelled)
  else
    reserve
    modify fun fetch => { fetch with getLogsRequests := fetch.getLogsRequests + 1 }
    match server.getLogs endpoint fetch.getLogsRequests
        { filter, fromBlock := segment.start, toBlock := requestEnd } with
    | .ok batch => return (pending, logs ++ batch)
    | .error none => throw (some (.rpc none))
    | .error (some limit) =>
      -- A single block cannot be split.
      if h : requestEnd ≤ segment.start then throw (some (.rpc (some limit)))
      else
        match limit with
        | .blockSpan maxBlocks =>
          let rejectedSpan := requestEnd - segment.start + 1
          let nextSpan := (maxBlocks.filter fun maxBlocks =>
            1 ≤ maxBlocks ∧ maxBlocks < rejectedSpan).getD (rejectedSpan / 2)
          modify fun fetch =>
            { fetch with spans := fetch.spans.narrowLogSpan endpoint nextSpan }
          return ({ start := segment.start, finish := requestEnd, cap := segment.cap,
                    start_le := by omega } :: pending, logs)
        | .resultSize =>
          return (halves segment.start requestEnd (by omega) ++ pending, logs)

/-- Cover the segments, in at most `fuel` rounds. -/
def loop (server : LogServer) (maxSpan : Nat) (endpoint : LogSpanEndpoint) (filter : LogFilter) :
    Nat → List LogSegment → List Log → LogFetchM (List Log)
  | 0, _, _ => throw none
  | _ + 1, [], logs => return logs
  | fuel + 1, segment :: pending, logs => do
    let (pending, logs) ← round server maxSpan endpoint filter segment pending logs
    loop server maxSpan endpoint filter fuel pending logs

/-- The logs of a range that match a filter. -/
def getLogs (server : LogServer) (maxSpan fuel : Nat) (endpoint : LogSpanEndpoint)
    (filter : LogFilter) (fromBlock toBlock : Nat) : LogFetchM (List Log) :=
  if h : toBlock < fromBlock then return []
  else loop server maxSpan endpoint filter fuel
    [{ start := fromBlock, finish := toBlock, cap := none, start_le := Nat.le_of_not_lt h }] []

end LogRangeFetch

/-- Where the periods of a deployment and the archive end. -/
structure LogSettings where
  contract : Address
  v2StartBlock : Nat
  legacyShieldBlock : Nat
  archiveUntilBlock : Nat
  blockRange : Nat

/-- The events of a range within one period. -/
def combinedLogEventSignaturesForRange (fromBlock toBlock v2StartBlock legacyShieldBlock : Nat) :
    Option (List EventSignature) :=
  if 0 < v2StartBlock ∧ toBlock < v2StartBlock then
    some [.commitmentBatch, .generatedCommitmentBatch, .nullifiers, .nullified]
  else if fromBlock < v2StartBlock then none
  else if toBlock ≤ legacyShieldBlock then
    some [.transact, .legacyShield, .nullifiers, .nullified]
  else if legacyShieldBlock < fromBlock then some [.transact, .shield, .nullifiers, .nullified]
  else none

/-- One fetch after the other. -/
def extendLogs (first second : LogFetchM (List Log)) : LogFetchM (List Log) := do
  let logs ← first
  let more ← second
  return logs ++ more

/-- A fetch that is only made under a condition. -/
def fetchWhen (condition : Prop) [Decidable condition] (fetch : LogFetchM (List Log)) :
    LogFetchM (List Log) :=
  if condition then fetch else return []

/-- The logs of a range from one endpoint, with one filter or with one for each kind. -/
def fetchLogsForRangeWithProvider (settings : LogSettings) (server : LogServer) (fuel : Nat)
    (endpoint : LogSpanEndpoint) (fromBlock toBlock : Nat) : LogFetchM (List Log) :=
  let getLogs (eventSignature : List EventSignature) (fromBlock toBlock : Nat) :=
    LogRangeFetch.getLogs server settings.blockRange fuel endpoint
      { address := settings.contract, eventSignature } fromBlock toBlock
  if toBlock < fromBlock then return []
  else
    match combinedLogEventSignaturesForRange fromBlock toBlock settings.v2StartBlock
        settings.legacyShieldBlock with
    | some eventSignatures => getLogs eventSignatures fromBlock toBlock
    | none =>
      let v2Start := max fromBlock settings.v2StartBlock
      let modernStart := max v2Start (saturatingAdd settings.legacyShieldBlock 1)
      extendLogs
        (fetchWhen (fromBlock ≤ settings.v2StartBlock)
          (getLogs [.commitmentBatch, .generatedCommitmentBatch] fromBlock
            (min toBlock settings.v2StartBlock)))
        (extendLogs
          (fetchWhen (settings.v2StartBlock ≤ toBlock)
            (extendLogs (getLogs [.transact] v2Start toBlock)
              (extendLogs
                (fetchWhen (v2Start ≤ settings.legacyShieldBlock)
                  (getLogs [.legacyShield] v2Start (min toBlock settings.legacyShieldBlock)))
                (fetchWhen (settings.legacyShieldBlock < toBlock)
                  (getLogs [.shield] modernStart toBlock)))))
          (getLogs [.nullifiers, .nullified] fromBlock toBlock))

/-- The endpoint that serves the archive, or `none` if the provider does. -/
def admittedArchiveProvider (archiveProvider archiveAdmitted : Bool) :
    Except LogFetchError (Option LogSpanEndpoint) :=
  if archiveProvider then
    if archiveAdmitted then .ok (some .archive) else .error .archiveRpcUnverified
  else .ok none

/-- The logs of a range on both sides of the archive boundary. -/
def fetchLogsForLogicalRange (settings : LogSettings) (server : LogServer) (fuel rpcIndex : Nat)
    (archiveProvider archiveAdmitted : Bool) (fromBlock toBlock : Nat) : LogFetchM (List Log) :=
  extendLogs
    (fetchWhen (0 < settings.archiveUntilBlock ∧ fromBlock ≤ settings.archiveUntilBlock) do
      let archive ← ofExcept
        ((admittedArchiveProvider archiveProvider archiveAdmitted).mapError some)
      fetchLogsForRangeWithProvider settings server fuel (archive.getD (.provider rpcIndex))
        fromBlock (min toBlock settings.archiveUntilBlock))
    (fetchWhen (settings.archiveUntilBlock < toBlock)
      (fetchLogsForRangeWithProvider settings server fuel (.provider rpcIndex)
        (if 0 < settings.archiveUntilBlock then max fromBlock (settings.archiveUntilBlock + 1)
          else fromBlock) toBlock))

end Railgun
