import Railgun.Core.Logs
import Railgun.Lib.KeyedList

/-!
# Logs and Page Boundaries

A fetch of a range asks the providers several times, but what it returns is
given by a condition on the single log. The loop over the segments is one of the
reasons: whatever the providers refuse, the logs that have been returned and
those of the pending segments are together the logs of the request. Each round
makes the segments shorter or the span of the endpoint smaller, so there is an
end to the rounds.

The condition is almost the same for every range, and two ranges side by side
then give what the whole range does. There are two exceptions. Commitments in
the old format in the block in which the new one starts are read by a range that
starts earlier. A range that starts with this block is read with the filter of
the new period only, unless it crosses the end of the old shields. And without
an archive a range that is only the first block is not read at all.

## Main definitions

* `LogServer.Consistent`: Providers that have the logs of the chain.
* `rangeLogs`, `segmentLogs`, `segmentsWeight`: The logs of segments, and how many
  rounds they take.
* `Fetches`, `FuelSuffices`: What a fetch returns, as a condition on logs, and that it ends.
* `LogSettings.inPeriod`, `LogSettings.atBoundary`, `LogSettings.readBy`: Which logs a
  range reads.
* `LogSettings.Obtains`, `LogSettings.SplitSafe`: Ranges that are split.

## Theorems

* `rangeLogs_split`, `segmentLogs_uncovered`, `segmentLogs_halves`: Parts of a range.
* `round_cases`, `round_covers`, `round_lighter`, `round_ne_fuel`: What one round does.
* `loop_covers`, `loop_ne_fuel`: The rounds cover the segments, and end.
* `fetches_getLogs`, `fetches_extendLogs`, `fetches_fetchWhen`: The parts of a fetch.
* `fetches_range`, `fetches_logicalRange`: The logs of a range.
* `fuelSuffices_getLogs`, `fuelSuffices_range`, `fuelSuffices_logicalRange`: Fetches end.
* `readsBoundaryIn_split_iff`, `splitSafe_iff`: When the parts read what the range does.
* `logs_split_iff`: When two ranges side by side give the logs of the whole.
* `logs_split_loses_boundary`: Ranges that do not.
-/

namespace Railgun

open LogRangeFetch LogSettings

/-- The providers answer a request with the matching logs of the chain, in any
    order, if they answer. -/
def LogServer.Consistent (server : LogServer) (chainLogs : List Log) : Prop :=
  ∀ endpoint sent request batch, server.getLogs endpoint sent request = .ok batch →
    batch.Perm (chainLogs.filter request.matches)

section Requests

variable {server : LogServer} {chainLogs : List Log} {maxSpan : Nat} {endpoint : LogSpanEndpoint}
  {filter : LogFilter}

/-- The logs of some blocks that match a filter. -/
def rangeLogs (chainLogs : List Log) (filter : LogFilter) (start finish : Nat) : List Log :=
  chainLogs.filter (LogRequest.matches { filter, fromBlock := start, toBlock := finish })

/-- The matching logs of the segments. -/
def segmentLogs (chainLogs : List Log) (filter : LogFilter) (segments : List LogSegment) :
    List Log :=
  segments.flatMap fun segment => rangeLogs chainLogs filter segment.start segment.finish

variable {finish : Nat}

/-- Blocks side by side have the logs of all the blocks. -/
theorem rangeLogs_split (chainLogs : List Log) (filter : LogFilter) {start middle : Nat}
    (hstart : start ≤ middle + 1) (hfinish : middle ≤ finish) :
    (rangeLogs chainLogs filter start middle ++ rangeLogs chainLogs filter (middle + 1) finish).Perm
      (rangeLogs chainLogs filter start finish) := by
  refine filter_append_filter_perm (fun log => ?_) (fun log hfirst => ?_)
  · simp only [LogRequest.matches]
    rw [← Bool.and_or_distrib_left, ← Bool.decide_or]
    exact congrArg _ (decide_eq_decide.mpr (by omega))
  · simp only [LogRequest.matches, Bool.and_eq_true, decide_eq_true_eq] at hfirst ⊢
    rw [Bool.and_eq_false_imp]
    exact fun _ => decide_eq_false (by omega)

/-- How many rounds the segments can take, next to the span of the endpoint. -/
def segmentsWeight (segments : List LogSegment) : Nat :=
  (segments.map fun segment => 2 * (segment.finish - segment.start) + 1).sum

variable {fetch' fetch : LogRangeFetch}

/-- A reservation does not touch the spans. -/
theorem reserve_eq_ok {u : Unit}
    (h : reserve.exec fetch = (.ok u, fetch')) : fetch'.spans = fetch.spans := by
  rw [reserve, exec_bind_of_ok (exec_get fetch)] at h
  cases hbudget : fetch.budget with
  | none =>
    rw [hbudget] at h
    rw [← (exec_pure_eq_ok.mp h).2]
  | some budget =>
    rw [hbudget] at h
    dsimp only at h
    split_ifs at h
    · rw [← (Prod.mk.inj h).2]
    · exact absurd h exec_throw_ne_ok

theorem ok_ne_error {α ε : Type} {a : α} {e : ε} : (Except.ok a : Except ε α) ≠ .error e := by
  simp only [ne_eq, reduceCtorEq, not_false_eq_true]

theorem error_ne_fuel {α : Type} {error : LogFetchError} :
    (Except.error (some error) : Except (Option LogFetchError) α) ≠ .error none :=
  fun h => Option.some_ne_none _ (Except.error.inj h)

theorem reserve_ne_fuel (fetch : LogRangeFetch) : (reserve.exec fetch).1 ≠ .error none := by
  rw [reserve, exec_bind_of_ok (exec_get fetch)]
  cases fetch.budget with
  | none => exact ok_ne_error
  | some budget =>
    dsimp only
    split_ifs
    · exact ok_ne_error
    · exact error_ne_fuel

/-- The next span is positive and shorter than the one refused. -/
theorem nextSpan_bounds (maxBlocks : Option Nat) {rejectedSpan : Nat} (h : 1 < rejectedSpan) :
    0 < (maxBlocks.filter fun maxBlocks =>
        1 ≤ maxBlocks ∧ maxBlocks < rejectedSpan).getD (rejectedSpan / 2) ∧
      (maxBlocks.filter fun maxBlocks =>
        1 ≤ maxBlocks ∧ maxBlocks < rejectedSpan).getD (rejectedSpan / 2) <
          rejectedSpan := by
  cases maxBlocks with
  | none =>
    rw [Option.filter_none, Option.getD_none]
    omega
  | some blocks =>
    rw [Option.filter_some]
    by_cases hblocks : 1 ≤ blocks ∧ blocks < rejectedSpan
    · rw [if_pos (decide_eq_true hblocks), Option.getD_some]
      omega
    · rw [if_neg (by rwa [decide_eq_true_eq]), Option.getD_none]
      omega

variable {segment : LogSegment} {logs' logs : List Log} {pending' pending : List LogSegment}

/-- What a round can do: get the logs of its request, or narrow the span of the
    endpoint, or cut the request in two. -/
theorem round_cases
    (h : (round server maxSpan endpoint filter segment pending logs).exec fetch =
      (.ok (pending', logs'), fetch')) :
    let finish := requestEnd segment (fetch.spans.logSpan endpoint maxSpan)
    (∃ batch, server.getLogs endpoint fetch.getLogsRequests
        { filter, fromBlock := segment.start, toBlock := finish } = .ok batch ∧
      pending' = uncovered segment finish ++ pending ∧ logs' = logs ++ batch ∧
      fetch'.spans = fetch.spans) ∨
    (∃ hspan : segment.start < finish, logs' = logs ∧
      ((∃ nextSpan, 0 < nextSpan ∧ nextSpan ≤ finish - segment.start ∧
          pending' = { start := segment.start, finish, cap := segment.cap,
                       start_le := Nat.le_of_lt hspan } ::
            (uncovered segment finish ++ pending) ∧
          fetch'.spans = fetch.spans.narrowLogSpan endpoint nextSpan) ∨
        (pending' = halves segment.start finish hspan ++ (uncovered segment finish ++ pending) ∧
          fetch'.spans = fetch.spans))) := by
  dsimp only
  rw [LogRangeFetch.round, exec_bind_of_ok (exec_get fetch)] at h
  obtain ⟨-, h⟩ := exec_ite_throw_eq_ok.mp h
  obtain ⟨u, reserved, hreserve, h⟩ := exec_bind_eq_ok.mp h
  have hspans := reserve_eq_ok hreserve
  rw [exec_bind_of_ok (exec_modify _ reserved)] at h
  cases hanswer : server.getLogs endpoint fetch.getLogsRequests
      { filter, fromBlock := segment.start,
        toBlock := requestEnd segment (fetch.spans.logSpan endpoint maxSpan) } with
  | ok batch =>
    rw [hanswer] at h
    obtain ⟨hresult, hfetch⟩ := exec_pure_eq_ok.mp h
    obtain ⟨rfl, rfl⟩ := Prod.mk.inj hresult
    refine Or.inl ⟨batch, rfl, rfl, rfl, ?_⟩
    rw [← hfetch]
    exact hspans
  | error limit =>
    rw [hanswer] at h
    cases limit with
    | none => exact absurd h exec_throw_ne_ok
    | some limit =>
      dsimp only at h
      by_cases hsingle :
          requestEnd segment (fetch.spans.logSpan endpoint maxSpan) ≤ segment.start
      · rw [dif_pos hsingle] at h
        exact absurd h exec_throw_ne_ok
      rw [dif_neg hsingle] at h
      refine Or.inr ⟨Nat.lt_of_not_le hsingle, ?_⟩
      cases limit with
      | blockSpan maxBlocks =>
        obtain ⟨hresult, hfetch⟩ := exec_pure_eq_ok.mp h
        obtain ⟨rfl, rfl⟩ := Prod.mk.inj hresult
        have hbounds := nextSpan_bounds maxBlocks
          (by omega : 1 < requestEnd segment (fetch.spans.logSpan endpoint maxSpan) -
            segment.start + 1)
        refine ⟨rfl, Or.inl ⟨_, hbounds.1, Nat.le_of_lt_succ hbounds.2, rfl, ?_⟩⟩
        rw [← hfetch, hspans]
      | resultSize =>
        obtain ⟨hresult, hfetch⟩ := exec_pure_eq_ok.mp h
        obtain ⟨rfl, rfl⟩ := Prod.mk.inj hresult
        refine ⟨rfl, Or.inr ⟨rfl, ?_⟩⟩
        rw [← hfetch]
        exact hspans

theorem segmentLogs_cons (segment : LogSegment) (segments : List LogSegment) :
    segmentLogs chainLogs filter (segment :: segments) =
      rangeLogs chainLogs filter segment.start segment.finish ++
        segmentLogs chainLogs filter segments := List.flatMap_cons

theorem segmentLogs_append (first second : List LogSegment) :
    segmentLogs chainLogs filter (first ++ second) =
      segmentLogs chainLogs filter first ++ segmentLogs chainLogs filter second :=
  List.flatMap_append

/-- What a request covers and what it leaves uncovered is the segment. -/
theorem segmentLogs_uncovered (segment : LogSegment)
    (hstart : segment.start ≤ finish) (hfinish : finish ≤ segment.finish) :
    (rangeLogs chainLogs filter segment.start finish ++
      segmentLogs chainLogs filter (uncovered segment finish)).Perm
      (rangeLogs chainLogs filter segment.start segment.finish) := by
  rw [uncovered]
  split_ifs with h
  · rw [segmentLogs, List.flatMap_singleton]
    exact rangeLogs_split chainLogs filter (by omega) hfinish
  · have hsame : finish = segment.finish := by omega
    rw [segmentLogs, List.flatMap_nil, List.append_nil, hsame]

theorem segmentLogs_halves {start : Nat} (h : start < finish) :
    (segmentLogs chainLogs filter (halves start finish h)).Perm
      (rangeLogs chainLogs filter start finish) := by
  rw [halves, segmentLogs, List.flatMap_cons, List.flatMap_singleton]
  dsimp only
  exact rangeLogs_split chainLogs filter (by omega) (by omega)

/-- A round neither loses nor repeats logs. -/
theorem round_covers (hserver : server.Consistent chainLogs)
    (h : (round server maxSpan endpoint filter segment pending logs).exec fetch =
      (.ok (pending', logs'), fetch')) :
    (logs' ++ segmentLogs chainLogs filter pending').Perm
      (logs ++ segmentLogs chainLogs filter (segment :: pending)) := by
  have hcovered := @segmentLogs_uncovered chainLogs filter
    (requestEnd segment (fetch.spans.logSpan endpoint maxSpan)) segment
    (le_requestEnd segment _) (Nat.min_le_right _ _)
  rcases round_cases h with
    ⟨batch, hbatch, rfl, rfl, -⟩ | ⟨hspan, rfl, ⟨-, -, -, rfl, -⟩ | ⟨rfl, -⟩⟩
  · rw [segmentLogs_append, List.append_assoc, ← List.append_assoc batch]
    refine List.Perm.append_left _ (List.Perm.append_right _ (List.Perm.trans ?_ hcovered))
    exact (hserver _ _ _ _ hbatch).append_right _
  · rw [segmentLogs_cons, segmentLogs_append, ← List.append_assoc (rangeLogs _ _ _ _)]
    exact List.Perm.append_left _ (List.Perm.append_right _ hcovered)
  · rw [segmentLogs_append, segmentLogs_append,
      ← List.append_assoc (segmentLogs _ _ (halves _ _ _))]
    refine List.Perm.append_left _ (List.Perm.append_right _ (List.Perm.trans ?_ hcovered))
    exact (segmentLogs_halves hspan).append_right _

/-- By induction over the rounds, the logs returned are those of the segments. -/
theorem loop_covers (hserver : server.Consistent chainLogs) {fuel : Nat} {all : List Log}
    (h : (loop server maxSpan endpoint filter fuel pending logs).exec fetch = (.ok all, fetch')) :
    all.Perm (logs ++ segmentLogs chainLogs filter pending) := by
  induction fuel generalizing pending logs fetch with
  | zero => exact absurd h exec_throw_ne_ok
  | succ fuel ih =>
    cases pending with
    | nil => rw [(exec_pure_eq_ok.mp h).1, segmentLogs, List.flatMap_nil, List.append_nil]
    | cons segment pending =>
      obtain ⟨⟨pending', logs'⟩, fetched, hround, hrest⟩ := exec_bind_eq_ok.mp h
      exact (ih hrest).trans (round_covers hserver hround)

/-! ### The rounds end -/

theorem segmentsWeight_cons (segment : LogSegment) (segments : List LogSegment) :
    segmentsWeight (segment :: segments) =
      2 * (segment.finish - segment.start) + 1 + segmentsWeight segments := rfl

/-- What is left uncovered is lighter than the segment by the request. -/
theorem segmentsWeight_uncovered (segment : LogSegment)
    (hstart : segment.start ≤ finish) (hfinish : finish ≤ segment.finish)
    (pending : List LogSegment) :
    2 * (finish - segment.start) + 1 + segmentsWeight (uncovered segment finish ++ pending) ≤
      segmentsWeight (segment :: pending) := by
  rw [uncovered, segmentsWeight_cons]
  split_ifs with h
  · rw [List.singleton_append, segmentsWeight_cons]
    dsimp only
    omega
  · rw [List.nil_append]
    omega

/-- A narrowed span is the smaller of the two. -/
theorem logSpan_narrow (spans : LogSpans) (endpoint : LogSpanEndpoint) (span maxSpan : Nat) :
    (spans.narrowLogSpan endpoint span).logSpan endpoint maxSpan =
      min (spans.logSpan endpoint maxSpan) (max span 1) := by
  rw [LogSpans.logSpan, LogSpans.logSpan, LogSpans.narrowLogSpan]
  dsimp only
  rw [if_pos rfl, Option.elim_some]
  cases spans.learned endpoint with
  | none => exact Nat.min_comm _ _
  | some learned =>
    exact Nat.min_right_comm _ _ _

theorem logSpan_narrow_lt {spans : LogSpans} {nextSpan : Nat} (hpos : 0 < nextSpan)
    (hlt : nextSpan < spans.logSpan endpoint maxSpan) :
    (spans.narrowLogSpan endpoint nextSpan).logSpan endpoint maxSpan <
      spans.logSpan endpoint maxSpan := by
  rw [logSpan_narrow]
  omega

theorem requestEnd_lt (segment : LogSegment) {learned : Nat}
    (h : segment.start < requestEnd segment learned) :
    requestEnd segment learned - segment.start < learned := by
  rw [requestEnd] at *
  cases hcap : segment.cap with
  | none =>
    rw [hcap, Option.elim_none] at h
    rw [Option.elim_none]
    omega
  | some cap =>
    rw [hcap, Option.elim_some] at h
    rw [Option.elim_some]
    omega

/-- A round makes the segments lighter or the span smaller. -/
theorem round_lighter
    (h : (round server maxSpan endpoint filter segment pending logs).exec fetch =
      (.ok (pending', logs'), fetch')) :
    fetch'.spans.logSpan endpoint maxSpan + segmentsWeight pending' <
      fetch.spans.logSpan endpoint maxSpan + segmentsWeight (segment :: pending) := by
  have hweight := segmentsWeight_uncovered segment
    (le_requestEnd segment (fetch.spans.logSpan endpoint maxSpan)) (Nat.min_le_right _ _) pending
  rcases round_cases h with ⟨batch, -, rfl, -, hspans⟩ |
    ⟨hspan, -, ⟨nextSpan, hpos, hnext, rfl, hspans⟩ | ⟨rfl, hspans⟩⟩
  · rw [hspans]
    omega
  · have hrequest := requestEnd_lt segment hspan
    have hnarrow := logSpan_narrow_lt hpos (Nat.lt_of_le_of_lt hnext hrequest)
    rw [hspans, segmentsWeight_cons]
    dsimp only
    omega
  · rw [hspans, halves]
    rw [List.cons_append, List.singleton_append, segmentsWeight_cons, segmentsWeight_cons]
    dsimp only
    omega

/-- A round does not run out of fuel. -/
theorem round_ne_fuel (segment : LogSegment) (pending : List LogSegment) (logs : List Log)
    (fetch : LogRangeFetch) :
    ((round server maxSpan endpoint filter segment pending logs).exec fetch).1 ≠
      .error none := by
  rw [LogRangeFetch.round, exec_bind_of_ok (exec_get fetch)]
  dsimp only
  split
  · exact error_ne_fuel
  refine exec_bind_ne_error (reserve_ne_fuel fetch) fun _ reserved _ => ?_
  refine exec_bind_ne_error ok_ne_error fun _ counted _ => ?_
  cases server.getLogs endpoint fetch.getLogsRequests
      { filter, fromBlock := segment.start,
        toBlock := requestEnd segment (fetch.spans.logSpan endpoint maxSpan) } with
  | ok batch => exact ok_ne_error
  | error limit =>
    cases limit with
    | none => exact error_ne_fuel
    | some limit =>
      dsimp only
      split_ifs
      · exact error_ne_fuel
      · cases limit with
        | blockSpan maxBlocks => exact ok_ne_error
        | resultSize => exact ok_ne_error

/-- Each round makes the rest lighter, so the fuel is enough. -/
theorem loop_ne_fuel {fuel : Nat}
    (hfuel : fetch.spans.logSpan endpoint maxSpan + segmentsWeight pending < fuel) :
    ((loop server maxSpan endpoint filter fuel pending logs).exec fetch).1 ≠ .error none := by
  induction fuel generalizing pending logs fetch with
  | zero => omega
  | succ fuel ih =>
    cases pending with
    | nil => exact ok_ne_error
    | cons segment pending =>
      refine exec_bind_ne_error (round_ne_fuel segment pending logs fetch)
        fun next fetched hround => ih ?_
      have hlighter := round_lighter hround
      omega

end Requests

/-- What a fetch returns is given by a condition on the single log. -/
def Fetches (chainLogs : List Log) (fetch : LogFetchM (List Log)) (p : Log → Bool) : Prop :=
  ∀ start finish logs, fetch.exec start = (.ok logs, finish) → logs.Perm (chainLogs.filter p)

section Ranges

variable {server : LogServer} {chainLogs : List Log} {settings : LogSettings}

variable {fetch : LogFetchM (List Log)} {p : Log → Bool}

theorem Fetches.congr {q : Log → Bool}
    (h : Fetches chainLogs fetch p) (hpq : ∀ log, p log = q log) : Fetches chainLogs fetch q := by
  rw [← funext hpq]
  exact h

/-- A fetch with one filter returns the logs that match. -/
theorem fetches_getLogs (hserver : server.Consistent chainLogs) (maxSpan fuel : Nat)
    (endpoint : LogSpanEndpoint) (filter : LogFilter) (fromBlock toBlock : Nat) :
    Fetches chainLogs (getLogs server maxSpan fuel endpoint filter fromBlock toBlock)
      (LogRequest.matches { filter, fromBlock, toBlock }) := by
  intro start finish logs h
  rw [getLogs] at h
  split_ifs at h with hempty
  · rw [← (exec_pure_eq_ok.mp h).1, List.filter_eq_nil_iff.mpr]
    intro log _ hmatches
    simp only [LogRequest.matches, Bool.and_eq_true, decide_eq_true_eq] at hmatches
    omega
  · have hall := loop_covers hserver h
    rwa [List.nil_append, segmentLogs, List.flatMap_singleton] at hall

/-- Two fetches return what either of them does, if they have no log in common. -/
theorem fetches_extendLogs {first second : LogFetchM (List Log)} {q : Log → Bool}
    (hfirst : Fetches chainLogs first p) (hsecond : Fetches chainLogs second q)
    (hexclusive : ∀ log, p log = true → q log = false) :
    Fetches chainLogs (extendLogs first second) fun log => p log || q log := by
  intro start finish logs h
  obtain ⟨firstLogs, middle, h₁, hrest⟩ := exec_bind_eq_ok.mp h
  obtain ⟨secondLogs, last, h₂, hpure⟩ := exec_bind_eq_ok.mp hrest
  rw [← (exec_pure_eq_ok.mp hpure).1]
  exact ((hfirst _ _ _ h₁).append (hsecond _ _ _ h₂)).trans
    (filter_append_filter_perm (fun _ => rfl) hexclusive)

/-- A fetch that is not made returns nothing. -/
theorem fetches_fetchWhen {condition : Prop} [Decidable condition]
    (hfetch : condition → Fetches chainLogs fetch p) :
    Fetches chainLogs (fetchWhen condition fetch) fun log => decide condition && p log := by
  intro start finish logs h
  rw [fetchWhen] at h
  split_ifs at h with hcondition
  · simp only [hcondition, decide_true, Bool.true_and]
    exact hfetch hcondition start finish logs h
  · simp only [hcondition, decide_false, Bool.false_and, List.filter_false]
    rw [← (exec_pure_eq_ok.mp h).1]

/-- Whether an event is in its own period. -/
def LogSettings.inPeriod (settings : LogSettings) (log : Log) : Bool :=
  match log.signature with
  | .commitmentBatch | .generatedCommitmentBatch => log.blockNumber < settings.v2StartBlock
  | .nullifiers | .nullified => true
  | .transact => settings.v2StartBlock ≤ log.blockNumber
  | .legacyShield => settings.v2StartBlock ≤ log.blockNumber ∧
      log.blockNumber ≤ settings.legacyShieldBlock
  | .shield => settings.v2StartBlock ≤ log.blockNumber ∧
      settings.legacyShieldBlock < log.blockNumber
  | .other _ => false

/-- A commitment in the old format in the block in which the new one starts. -/
def LogSettings.atBoundary (settings : LogSettings) (log : Log) : Bool :=
  decide (log.signature = .commitmentBatch ∨ log.signature = .generatedCommitmentBatch) &&
    decide (log.blockNumber = settings.v2StartBlock)

/-- A log of the contract in a range, in its period or at a boundary that is read. -/
def LogSettings.readInRange (settings : LogSettings) (fromBlock toBlock : Nat) (boundary : Bool)
    (log : Log) : Bool :=
  decide (log.address = settings.contract) &&
    decide (fromBlock ≤ log.blockNumber ∧ log.blockNumber ≤ toBlock) &&
    (settings.inPeriod log || (settings.atBoundary log && boundary))

variable {toBlock fromBlock : Nat}

/-- A range is read with the old commitments of the boundary if it starts before
    it, or starts with it and crosses the end of the old shields. -/
theorem fetches_range (hserver : server.Consistent chainLogs) (fuel : Nat)
    (endpoint : LogSpanEndpoint) (hword : toBlock < 2 ^ 64) :
    Fetches chainLogs
      (fetchLogsForRangeWithProvider settings server fuel endpoint fromBlock toBlock)
      (settings.readInRange fromBlock toBlock
        (decide (fromBlock < settings.v2StartBlock ∨
          (settings.v2StartBlock ≤ settings.legacyShieldBlock ∧
            settings.legacyShieldBlock < toBlock)))) := by
  rw [fetchLogsForRangeWithProvider]
  split_ifs with hempty
  · intro start finish logs h
    rw [← (exec_pure_eq_ok.mp h).1, List.filter_eq_nil_iff.mpr]
    intro log _ hread
    simp only [readInRange, Bool.and_eq_true, decide_eq_true_eq] at hread
    omega
  cases hcombined : combinedLogEventSignaturesForRange fromBlock toBlock settings.v2StartBlock
      settings.legacyShieldBlock with
  | some eventSignatures =>
    refine (fetches_getLogs hserver _ _ _ _ _ _).congr fun log => ?_
    rw [combinedLogEventSignaturesForRange] at hcombined
    simp only [LogRequest.matches, readInRange, Bool.and_assoc]
    rw [Bool.eq_iff_iff]
    split_ifs at hcombined
    all_goals
      rw [← Option.some.inj hcombined]
      cases hsignature : log.signature <;>
      simp [inPeriod, atBoundary, hsignature] <;> omega
  | none =>
    -- One request for each period, so the events of a log decide which of them reads it.
    have hmodern : saturatingAdd settings.legacyShieldBlock 1 =
      min (settings.legacyShieldBlock + 1) (2 ^ 64 - 1) := rfl
    refine (fetches_extendLogs (fetches_fetchWhen fun _ => fetches_getLogs hserver _ _ _ _ _ _)
      (fetches_extendLogs
        (fetches_fetchWhen fun _ => fetches_extendLogs (fetches_getLogs hserver _ _ _ _ _ _)
          (fetches_extendLogs (fetches_fetchWhen fun _ => fetches_getLogs hserver _ _ _ _ _ _)
            (fetches_fetchWhen fun _ => fetches_getLogs hserver _ _ _ _ _ _)
            fun log h => ?_) fun log h => ?_)
        (fetches_getLogs hserver _ _ _ _ _ _) fun log h => ?_) fun log h => ?_).congr fun log => ?_
    · cases hsignature : log.signature <;> simp_all [LogRequest.matches]
    · cases hsignature : log.signature <;> simp_all [LogRequest.matches]
    · cases hsignature : log.signature <;> simp_all [LogRequest.matches]
    · cases hsignature : log.signature <;> simp_all [LogRequest.matches]
    · rw [combinedLogEventSignaturesForRange] at hcombined
      rw [Bool.eq_iff_iff]
      by_cases haddress : log.address = settings.contract
      · split_ifs at hcombined
        all_goals
          cases hsignature : log.signature <;>
          simp only [LogRequest.matches, readInRange, inPeriod,
            atBoundary, haddress, hsignature, List.mem_cons,
            List.not_mem_nil, reduceCtorEq, or_false, or_true, decide_true, decide_false,
            Bool.true_and, Bool.false_and, Bool.and_true, Bool.and_false, Bool.or_false,
            Bool.false_or, Bool.and_eq_true, Bool.or_eq_true, decide_eq_true_eq] <;> omega
      · simp [LogRequest.matches, readInRange, haddress]

theorem fetches_ofExcept_bind {α : Type} {x : Except (Option LogFetchError) α}
    {fetch : α → LogFetchM (List Log)}
    (h : ∀ a, Fetches chainLogs (fetch a) p) : Fetches chainLogs (ofExcept x >>= fetch) p := by
  intro start finish logs hfetch
  obtain ⟨a, -, hrest⟩ := exec_ofExcept_bind_eq_ok.mp hfetch
  exact h a start finish logs hrest

/-- Where a range starts on the side of the archive's end that has the boundary. -/
def LogSettings.boundaryStart (settings : LogSettings) (fromBlock : Nat) : Nat :=
  if 0 < settings.archiveUntilBlock ∧ settings.archiveUntilBlock < settings.v2StartBlock then
    max fromBlock (settings.archiveUntilBlock + 1) else fromBlock

/-- Where a range ends on that side. -/
def LogSettings.boundaryFinish (settings : LogSettings) (toBlock : Nat) : Nat :=
  if 0 < settings.archiveUntilBlock ∧ settings.v2StartBlock ≤ settings.archiveUntilBlock then
    min toBlock settings.archiveUntilBlock else toBlock

/-- Whether a range reads the old commitments of the boundary. -/
def LogSettings.readsBoundary (settings : LogSettings) (fromBlock toBlock : Nat) : Bool :=
  settings.boundaryStart fromBlock < settings.v2StartBlock ∨
    (settings.v2StartBlock ≤ settings.legacyShieldBlock ∧
      settings.legacyShieldBlock < settings.boundaryFinish toBlock)

theorem readsBoundary_iff :
    settings.readsBoundary fromBlock toBlock = true ↔
      settings.boundaryStart fromBlock < settings.v2StartBlock ∨
        (settings.v2StartBlock ≤ settings.legacyShieldBlock ∧
          settings.legacyShieldBlock < settings.boundaryFinish toBlock) :=
  decide_eq_true_iff

/-- Whether a fetch of a range reads a log. -/
def LogSettings.readBy (settings : LogSettings) (fromBlock toBlock : Nat) (log : Log) : Bool :=
  decide (settings.archiveUntilBlock = 0 → 0 < toBlock) &&
    settings.readInRange fromBlock toBlock (settings.readsBoundary fromBlock toBlock) log

/-- The archive's side and the other side read what the range does. -/
theorem fetches_logicalRange (hserver : server.Consistent chainLogs) (fuel rpcIndex : Nat)
    (archiveProvider archiveAdmitted : Bool) (hword : toBlock < 2 ^ 64) :
    Fetches chainLogs
      (fetchLogsForLogicalRange settings server fuel rpcIndex archiveProvider archiveAdmitted
        fromBlock toBlock) (settings.readBy fromBlock toBlock) := by
  refine (fetches_extendLogs
    (fetches_fetchWhen fun _ => fetches_ofExcept_bind fun _ => fetches_range hserver _ _ (by omega))
    (fetches_fetchWhen fun _ => fetches_range hserver _ _ hword) fun log h => ?_).congr
    fun log => ?_
  · simp only [readInRange, Bool.and_eq_true, decide_eq_true_eq] at h
    simp only [readInRange, Bool.and_eq_false_iff, decide_eq_false_iff_not]
    rw [if_pos h.1.1]
    omega
  · rw [Bool.eq_iff_iff]
    simp only [readBy, readInRange, readsBoundary_iff, boundaryStart, boundaryFinish, atBoundary,
      Bool.and_eq_true, Bool.or_eq_true, decide_eq_true_eq]
    by_cases haddress : log.address = settings.contract
    · cases hperiod : settings.inPeriod log with
      | true =>
        simp only [haddress, true_and, true_or, and_true]
        split_ifs <;> omega
      | false =>
        by_cases hboundary : (log.signature = .commitmentBatch ∨
            log.signature = .generatedCommitmentBatch) ∧
            log.blockNumber = settings.v2StartBlock
        · simp only [haddress, hboundary, true_and, Bool.false_eq_true, false_or]
          by_cases harchive : 0 < settings.archiveUntilBlock
          · by_cases hside : settings.archiveUntilBlock < settings.v2StartBlock
            · simp only [harchive, hside, Nat.not_le_of_lt hside, true_and, if_true, if_false]
              omega
            · simp only [harchive, hside, Nat.le_of_not_lt hside, true_and, if_true, if_false]
              omega
          · have hzero : settings.archiveUntilBlock = 0 := by omega
            simp [hzero]
        · simp [hboundary]
    · simp only [haddress, false_and, and_false, or_self]

/-! ### Fetches end -/

/-- A fetch does not run out of fuel. -/
def FuelSuffices (fetch : LogFetchM (List Log)) : Prop :=
  ∀ start, (fetch.exec start).1 ≠ .error none

theorem logSpan_le (spans : LogSpans) (endpoint : LogSpanEndpoint) (maxSpan : Nat) :
    spans.logSpan endpoint maxSpan ≤ max maxSpan 1 := by
  rw [LogSpans.logSpan]
  cases spans.learned endpoint with
  | none => exact le_refl _
  | some learned => exact Nat.min_le_right _ _

variable {fuel : Nat}

/-- The rounds of a range take at most the span and twice the blocks. -/
theorem fuelSuffices_getLogs {maxSpan first last : Nat}
    (hfuel : max maxSpan 1 + 2 * (last - first) + 1 < fuel) (hfirst : first ≤ fromBlock)
    (hlast : toBlock ≤ last) (endpoint : LogSpanEndpoint) (filter : LogFilter) :
    FuelSuffices (getLogs server maxSpan fuel endpoint filter fromBlock toBlock) := by
  intro start
  rw [getLogs]
  split_ifs with hempty
  · exact ok_ne_error
  · refine loop_ne_fuel ?_
    have hspan := logSpan_le start.spans endpoint maxSpan
    rw [segmentsWeight_cons, show segmentsWeight [] = 0 from rfl]
    dsimp only
    omega

theorem fuelSuffices_extendLogs {first second : LogFetchM (List Log)}
    (hfirst : FuelSuffices first) (hsecond : FuelSuffices second) :
    FuelSuffices (extendLogs first second) := fun start =>
  exec_bind_ne_error (hfirst start) fun _ middle _ =>
    exec_bind_ne_error (hsecond middle) fun _ _ _ => ok_ne_error

theorem fuelSuffices_fetchWhen {condition : Prop} [Decidable condition]
    (hfetch : condition → FuelSuffices fetch) :
    FuelSuffices (fetchWhen condition fetch) := by
  intro start
  rw [fetchWhen]
  split_ifs with hcondition
  · exact hfetch hcondition start
  · exact ok_ne_error

theorem fuelSuffices_range {first last : Nat}
    (hfuel : max settings.blockRange 1 + 2 * (last - first) + 1 < fuel) (hfirst : first ≤ fromBlock)
    (hlast : toBlock ≤ last) (endpoint : LogSpanEndpoint) :
    FuelSuffices
      (fetchLogsForRangeWithProvider settings server fuel endpoint fromBlock toBlock) := by
  rw [fetchLogsForRangeWithProvider]
  split_ifs with hempty
  · exact fun _ => ok_ne_error
  cases combinedLogEventSignaturesForRange fromBlock toBlock settings.v2StartBlock
      settings.legacyShieldBlock with
  | some eventSignatures => exact fuelSuffices_getLogs hfuel hfirst hlast _ _
  | none =>
    exact fuelSuffices_extendLogs
      (fuelSuffices_fetchWhen fun _ => fuelSuffices_getLogs hfuel hfirst (by omega) _ _)
      (fuelSuffices_extendLogs
        (fuelSuffices_fetchWhen fun _ => fuelSuffices_extendLogs
          (fuelSuffices_getLogs hfuel (by omega) hlast _ _)
          (fuelSuffices_extendLogs
            (fuelSuffices_fetchWhen fun _ => fuelSuffices_getLogs hfuel (by omega) (by omega) _ _)
            (fuelSuffices_fetchWhen fun _ => fuelSuffices_getLogs hfuel (by omega) hlast _ _)))
        (fuelSuffices_getLogs hfuel hfirst hlast _ _))

theorem fuelSuffices_logicalRange
    (hfuel : max settings.blockRange 1 + 2 * (toBlock - fromBlock) + 1 < fuel) (rpcIndex : Nat)
    (archiveProvider archiveAdmitted : Bool) :
    FuelSuffices (fetchLogsForLogicalRange settings server fuel rpcIndex archiveProvider
      archiveAdmitted fromBlock toBlock) := by
  refine fuelSuffices_extendLogs (fuelSuffices_fetchWhen fun _ => ?_)
    (fuelSuffices_fetchWhen fun _ => fuelSuffices_range hfuel (by split_ifs <;> omega)
      (le_refl _) _)
  intro start
  cases archiveProvider with
  | false => exact fuelSuffices_range hfuel (le_refl _) (Nat.min_le_left _ _) _ start
  | true =>
    cases archiveAdmitted with
    | false => exact error_ne_fuel
    | true => exact fuelSuffices_range hfuel (le_refl _) (Nat.min_le_left _ _) _ start

end Ranges

/-- The logs that a fetch of a range has returned, from providers that have the
    logs of the chain. -/
def LogSettings.Obtains (settings : LogSettings) (chainLogs : List Log) (fromBlock toBlock : Nat)
    (logs : List Log) : Prop :=
  ∃ (server : LogServer) (fuel rpcIndex : Nat) (archiveProvider archiveAdmitted : Bool)
    (start finish : LogRangeFetch), server.Consistent chainLogs ∧
    (fetchLogsForLogicalRange settings server fuel rpcIndex archiveProvider archiveAdmitted
      fromBlock toBlock).exec start = (.ok logs, finish)

/-- A range that has the boundary, and reads its old commitments. -/
def LogSettings.ReadsBoundaryIn (settings : LogSettings) (fromBlock toBlock : Nat) : Prop :=
  (settings.archiveUntilBlock = 0 → 0 < toBlock) ∧
    (fromBlock ≤ settings.v2StartBlock ∧ settings.v2StartBlock ≤ toBlock) ∧
    settings.readsBoundary fromBlock toBlock = true

/-- Neither does the range start at the boundary with only the whole of it beyond the
    old shields, nor does the second part start there where only a range from before
    would read the old commitments. -/
def LogSettings.BoundarySafe (settings : LogSettings) (first middle last : Nat) : Prop :=
  ¬ (settings.boundaryStart first = settings.v2StartBlock ∧ settings.v2StartBlock ≤ middle ∧
      settings.v2StartBlock ≤ settings.legacyShieldBlock ∧
      settings.boundaryFinish middle ≤ settings.legacyShieldBlock ∧
      settings.legacyShieldBlock < settings.boundaryFinish last) ∧
  ¬ (middle + 1 = settings.v2StartBlock ∧ settings.boundaryStart first < settings.v2StartBlock ∧
      (settings.legacyShieldBlock < settings.v2StartBlock ∨
        settings.boundaryFinish last ≤ settings.legacyShieldBlock))

/-- A split loses nothing. Without an archive the first block is not split off, unless
    it is empty. If there are old commitments of the boundary, they are read by one of
    the parts if they are read by the range. -/
def LogSettings.SplitSafe (settings : LogSettings) (chainLogs : List Log)
    (first middle last : Nat) : Prop :=
  (settings.archiveUntilBlock = 0 → middle = 0 → ∀ log ∈ chainLogs,
    log.address = settings.contract → log.blockNumber = 0 → settings.inPeriod log = false) ∧
  ((∃ log ∈ chainLogs, log.address = settings.contract ∧ settings.atBoundary log = true) →
    settings.BoundarySafe first middle last)

section Splits

variable {settings : LogSettings} {chainLogs : List Log}

theorem LogSettings.Obtains.perm {fromBlock toBlock : Nat} {logs : List Log}
    (h : settings.Obtains chainLogs fromBlock toBlock logs) (hword : toBlock < 2 ^ 64) :
    logs.Perm (chainLogs.filter (settings.readBy fromBlock toBlock)) := by
  obtain ⟨server, fuel, rpcIndex, archiveProvider, archiveAdmitted, start, finish, hserver,
    hfetch⟩ :=
    h
  exact fetches_logicalRange hserver fuel rpcIndex archiveProvider archiveAdmitted hword _ _ _
    hfetch

/-- At the boundary an old commitment is not in its period. -/
theorem not_inPeriod_of_atBoundary {log : Log} (h : settings.atBoundary log = true) :
    settings.inPeriod log = false := by
  simp only [atBoundary, Bool.and_eq_true, decide_eq_true_eq] at h
  rcases h with ⟨hsignature | hsignature, hblock⟩
  all_goals
    rw [inPeriod, hsignature]
    exact decide_eq_false (by omega)

variable {first middle last : Nat} (hfirst : first ≤ middle) (hlast : middle < last)

include hfirst hlast

/-- The boundary is read by one of the parts if it is read by the whole range. -/
theorem readsBoundaryIn_split_iff :
    (settings.ReadsBoundaryIn first last ↔
      settings.ReadsBoundaryIn first middle ∨ settings.ReadsBoundaryIn (middle + 1) last) ↔
    settings.BoundarySafe first middle last := by
  simp only [ReadsBoundaryIn, BoundarySafe, readsBoundary_iff, boundaryStart, boundaryFinish]
  split_ifs <;> omega

/-- The parts read what the range does exactly if the split is safe. -/
theorem splitSafe_iff :
    (∀ log ∈ chainLogs, settings.readBy first last log =
      (settings.readBy first middle log || settings.readBy (middle + 1) last log)) ↔
      settings.SplitSafe chainLogs first middle last := by
  refine (forall₂_congr fun log _ => Bool.eq_iff_iff).trans ?_
  simp only [readBy, readInRange, Bool.and_eq_true, Bool.or_eq_true, decide_eq_true_eq]
  constructor
  · intro h
    refine ⟨fun harchive hmiddle log hmem haddress hblock => ?_, ?_⟩
    · by_contra hperiod
      rw [Bool.not_eq_false] at hperiod
      have hlog := h log hmem
      simp only [haddress, hperiod, true_and, true_or, and_true, harchive, true_implies] at hlog
      omega
    · rintro ⟨log, hmem, haddress, hboundary⟩
      have hlog := h log hmem
      have hblock : log.blockNumber = settings.v2StartBlock := by
        simp only [atBoundary, Bool.and_eq_true, decide_eq_true_eq] at hboundary
        exact hboundary.2
      simp only [haddress, not_inPeriod_of_atBoundary hboundary, hboundary, true_and,
        Bool.false_eq_true, false_or, hblock] at hlog
      exact (readsBoundaryIn_split_iff hfirst hlast).mp hlog
  · rintro ⟨hblocks, hboundary⟩ log hmem
    by_cases haddress : log.address = settings.contract
    · cases hperiod : settings.inPeriod log with
      | true =>
        have hsafe : settings.archiveUntilBlock = 0 → middle = 0 → log.blockNumber ≠ 0 := by
          intro harchive hmiddle hblock
          rw [hblocks harchive hmiddle log hmem haddress hblock] at hperiod
          exact Bool.false_ne_true hperiod
        simp only [haddress, true_and, true_or, and_true]
        omega
      | false =>
        cases hat : settings.atBoundary log with
        | false => simp only [Bool.false_eq_true, false_and, or_self, and_false]
        | true =>
          have hreads := (readsBoundaryIn_split_iff hfirst hlast).mpr
            (hboundary ⟨log, hmem, haddress, hat⟩)
          have hblock : log.blockNumber = settings.v2StartBlock := by
            simp only [atBoundary, Bool.and_eq_true, decide_eq_true_eq] at hat
            exact hat.2
          simp only [haddress, true_and, Bool.false_eq_true, false_or, hblock]
          exact hreads
    · simp only [haddress, false_and, and_false, or_self]

omit hfirst hlast

-- What is fetched for a range is a part of the logs of the chain, given by a
-- condition on the single log. The parts have no block in common, so the two
-- multisets are equal exactly if the conditions are.
/-- Fetches end, and two ranges side by side give the logs of the whole exactly if the
    split is safe. -/
theorem logs_split_iff (settings : LogSettings) (chainLogs : List Log) {first middle last : Nat}
    (hfirst : first ≤ middle) (hlast : middle < last) (hword : last < 2 ^ 64) :
    (∀ server fuel rpcIndex archiveProvider archiveAdmitted fromBlock toBlock,
      max settings.blockRange 1 + 2 * (toBlock - fromBlock) + 1 < fuel →
      FuelSuffices (fetchLogsForLogicalRange settings server fuel rpcIndex archiveProvider
        archiveAdmitted fromBlock toBlock)) ∧
    ∀ whole before after, settings.Obtains chainLogs first last whole →
      settings.Obtains chainLogs first middle before →
      settings.Obtains chainLogs (middle + 1) last after →
      (whole.Perm (before ++ after) ↔ settings.SplitSafe chainLogs first middle last) := by
  refine ⟨fun server fuel rpcIndex archiveProvider archiveAdmitted fromBlock toBlock hfuel =>
    fuelSuffices_logicalRange hfuel rpcIndex archiveProvider archiveAdmitted,
    fun whole before after hwhole hbefore hafter => ?_⟩
  have hparts := ((hbefore.perm (by omega)).append (hafter.perm hword)).trans
    (filter_append_filter_perm (fun _ => rfl) fun log hlog => by
      simp only [readBy, readInRange, Bool.and_eq_true, decide_eq_true_eq] at hlog
      simp only [readBy, readInRange, Bool.and_eq_false_iff, decide_eq_false_iff_not]
      exact Or.inr (Or.inl (Or.inr (by omega))))
  rw [← splitSafe_iff hfirst hlast, ← filter_perm_filter_iff]
  exact ⟨fun h => ((hwhole.perm hword).symm.trans h).trans hparts,
    fun h => ((hwhole.perm hword).trans h).trans hparts.symm⟩

end Splits

/-! ### A split that keeps all logs, and one that does not -/

/-- A deployment without an archive. -/
def sampleLogSettings : LogSettings :=
  { contract := 7, v2StartBlock := 10, legacyShieldBlock := 20, archiveUntilBlock := 0,
    blockRange := 5 }

/-- A log of the contract. -/
def sampleLog (signature : EventSignature) (blockNumber : Nat) : Log :=
  { address := 7, signature, blockNumber, logIndex := 0, data := [] }

/-- Providers that answer every request. -/
def sampleLogServer (chainLogs : List Log) : LogServer :=
  { getLogs := fun _ _ request => .ok (chainLogs.filter request.matches),
    cancelled := fun _ => false }

/-- Before the first request. -/
def freshFetch : LogRangeFetch :=
  { spans := { learned := fun _ => none, learned_pos := fun _ _ h => by cases h },
    getLogsRequests := 0, budget := none }

theorem obtains_sample {settings : LogSettings} {chainLogs logs : List Log}
    {fromBlock toBlock : Nat}
    (h : ((fetchLogsForLogicalRange settings (sampleLogServer chainLogs) 20 0 false false
      fromBlock toBlock).exec freshFetch).1 = .ok logs) :
    settings.Obtains chainLogs fromBlock toBlock logs := by
  refine ⟨sampleLogServer chainLogs, 20, 0, false, false, freshFetch, _, ?_, Prod.ext h rfl⟩
  intro endpoint sent request batch hanswer
  rw [← Except.ok.inj hanswer]

/-- Logs on both sides of the boundary, but no old commitment at it. -/
def sampleLogs : List Log :=
  [sampleLog .commitmentBatch 9, sampleLog .nullified 10, sampleLog .transact 11]

theorem sampleLogs_splitSafe : sampleLogSettings.SplitSafe sampleLogs 9 9 12 := by
  refine ⟨fun _ hmiddle => by omega, ?_⟩
  rintro ⟨log, hmem, -, hboundary⟩
  exact absurd hboundary ((by decide : ∀ log ∈ sampleLogs,
    ¬ sampleLogSettings.atBoundary log = true) log hmem)

/-- Two pages around the boundary, without an old commitment at it. -/
theorem logs_split_sample :
    [sampleLog .commitmentBatch 9, sampleLog .transact 11, sampleLog .nullified 10].Perm
      ([sampleLog .commitmentBatch 9] ++ [sampleLog .nullified 10, sampleLog .transact 11]) :=
  ((logs_split_iff sampleLogSettings sampleLogs (le_refl 9) (by decide) (by decide)).2 _ _ _
    (obtains_sample rfl) (obtains_sample rfl) (obtains_sample rfl)).mpr sampleLogs_splitSafe

/-- An old commitment in the first block of the new period is read with the
    block before it, but not if the page starts with its block. -/
theorem logs_split_loses_boundary :
    sampleLogSettings.Obtains [sampleLog .commitmentBatch 10] 9 12
        [sampleLog .commitmentBatch 10] ∧
      sampleLogSettings.Obtains [sampleLog .commitmentBatch 10] 9 9 [] ∧
      sampleLogSettings.Obtains [sampleLog .commitmentBatch 10] 10 12 [] ∧
      ¬ [sampleLog .commitmentBatch 10].Perm ([] ++ []) :=
  ⟨obtains_sample rfl, obtains_sample rfl, obtains_sample rfl, by decide⟩

end Railgun
