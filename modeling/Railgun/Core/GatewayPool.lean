import Railgun.Core.Types
import Mathlib.Data.List.MinMax
import Mathlib.Order.Lex
import Mathlib.Logic.Function.Basic
import Railgun.Lib.Runs

/-!
# The Gateway Pool

Artifacts are fetched from gateways by attempts that run at the same time. The pool
knows how each gateway has done. A gateway that has failed cools for a while, for
one kind of request or for all, and when that time is over one attempt probes it
while it stays half-open for the others. An attempt holds its reservation until it
has an outcome or is dropped. It is dropped after an outcome too, and a flag keeps
it from giving its reservation back twice. A reset forgets all health and begins a
generation.

Each operation holds the lock of the pool, so what several threads do is a sequence
of operations. The flag belongs to the attempt and is read without the lock. Times
are nanoseconds and every operation brings the time it has read.

## Main definitions

* `GatewayHealth`, `GatewayPoolState`: What the pool knows.
* `selectExcludingWithPolicy`: Reserve a gateway.
* `release`, `finish`: Give the reservation back.
* `GatewayAttempt.success`, `GatewayAttempt.failure`, `GatewayAttempt.drop`: What
  becomes of an attempt.
* `GatewaySystem`, `gatewayStep`: The pool with the attempts that are not dropped.
-/

namespace Railgun

/-- What a gateway can be asked for. -/
inductive GatewayCapability where
  | artifactCar
  | manifestCid
  | ipnsRecord
deriving DecidableEq, Repr

/-- Whether gateways that cool down may be taken. -/
inductive GatewaySelectionPolicy where
  | healthyOnly
  | allowCoolingFallback
deriving DecidableEq, Repr

/-- Where a request has failed. -/
inductive TrustlessHttpPhase where
  | responseHeaders
  | responseBody
deriving DecidableEq, Repr

/-- The errors of an attempt, as far as the pool tells them apart. -/
inductive GatewayFailure where
  | http (phase : TrustlessHttpPhase)
  | httpTimeout (phase : TrustlessHttpPhase)
  | httpStatus (status : Nat)
  | other
deriving DecidableEq, Repr

/-- Whether the gateway itself cannot be reached. -/
def isGatewayWideFailure : GatewayFailure → Bool
  | .http phase => phase = .responseHeaders
  | .httpTimeout phase => phase = .responseHeaders
  | .httpStatus status => 521 ≤ status ∧ status ≤ 523
  | .other => false

/-- Five minutes. -/
def gatewayFailureCooldown : Nat := 5 * 60 * 10 ^ 9

/-- A quarter of an hour. -/
def gatewayFailureCooldownCap : Nat := 15 * 60 * 10 ^ 9

/-- Failures in a row, the end of the cooldown, the reservations, and whether a probe is
    out. -/
structure GatewayHealth where
  failures : Nat
  cooldownUntil : Option Nat
  inFlight : Nat
  halfOpen : Bool
deriving DecidableEq, Repr

namespace GatewayHealth

/-- Nothing is known. -/
def new : GatewayHealth :=
  { failures := 0, cooldownUntil := none, inFlight := 0, halfOpen := false }

/-- Whether it cools down, or is being probed. -/
def isCooling (health : GatewayHealth) (now : Nat) : Bool :=
  (health.cooldownUntil.any fun cooldown => now < cooldown) || health.halfOpen

/-- The rest of a cooldown. Time is in nanoseconds. -/
def remainingCooldownMs (health : GatewayHealth) (now : Nat) : Nat :=
  health.cooldownUntil.elim 0 fun cooldown => (cooldown - now) / 10 ^ 6

/-- Whether a reservation probes the gateway after it has cooled. -/
def takesHalfOpenProbe (health : GatewayHealth) (now : Nat) : Bool :=
  (health.cooldownUntil.any fun cooldown => cooldown ≤ now) && !health.halfOpen

/-- One more failure in a row. The count is a 32-bit word that saturates. -/
def recordFailure (health : GatewayHealth) (now : Nat) : GatewayHealth :=
  let failures := min (health.failures + 1) (2 ^ 32 - 1)
  let multiplier := 2 ^ min (failures - 1) 4
  { health with
    failures
    cooldownUntil :=
      some (now + min (gatewayFailureCooldown * multiplier) gatewayFailureCooldownCap) }

/-- A success forgets the failures. -/
def clearFailures (health : GatewayHealth) : GatewayHealth :=
  { health with failures := 0, cooldownUntil := none }

/-- One more reservation. The count is a machine word that saturates. -/
def reserve (health : GatewayHealth) (owns : Bool) : GatewayHealth :=
  { health with
    inFlight := min (health.inFlight + 1) (2 ^ 64 - 1)
    halfOpen := health.halfOpen || owns }

/-- The probe of its owner is over. -/
def closeProbe (health : GatewayHealth) (owns : Bool) : GatewayHealth :=
  { health with halfOpen := health.halfOpen && !owns }

/-- One reservation less. -/
def giveBack (health : GatewayHealth) (owns : Bool) : GatewayHealth :=
  { health with inFlight := health.inFlight - 1 }.closeProbe owns

end GatewayHealth

/-- Health is kept for a gateway and a kind of request, and for a gateway as a
    whole. -/
structure GatewayPoolState where
  health : UInt64 × GatewayCapability → Option GatewayHealth
  gatewayHealth : UInt64 → Option GatewayHealth
  seed : UInt64
  generation : Nat

/-- A reserved gateway, with the probes that the attempt owns. -/
structure GatewayAttempt where
  identity : UInt64
  capability : GatewayCapability
  generation : Nat
  ownsHalfOpen : Bool
  ownsGatewayHalfOpen : Bool
  index : Nat
  completed : Bool
deriving DecidableEq, Repr

/-- What a gateway is chosen by. -/
structure SelectionCandidate where
  index : Nat
  identity : UInt64
  rank : UInt64
  inFlight : Nat
  cooldownMs : Nat
  capabilityCooling : Bool
  gatewayCooling : Bool
deriving DecidableEq, Repr

/-- Whether it cools down, for the kind of request or as a whole. -/
def SelectionCandidate.cooling (candidate : SelectionCandidate) : Bool :=
  candidate.capabilityCooling || candidate.gatewayCooling

/-- The order of gateways that are equal otherwise. -/
def rankFor (seed identity : UInt64) : UInt64 :=
  let value := seed ^^^ identity * 0x9e3779b97f4a7c15
  let value := (value ^^^ value >>> 30) * 0xbf58476d1ce4e5b9
  let value := (value ^^^ value >>> 27) * 0x94d049bb133111eb
  value ^^^ value >>> 31

namespace GatewayPoolState

/-- A pool that knows nothing. -/
def new (seed : UInt64) : GatewayPoolState :=
  { health := fun _ => none, gatewayHealth := fun _ => none, seed, generation := 0 }

/-- Forget all health. The generation wraps. -/
def reset (state : GatewayPoolState) (seed : UInt64) : GatewayPoolState :=
  { health := fun _ => none, gatewayHealth := fun _ => none, seed
    generation := (state.generation + 1) % 2 ^ 64 }

/-- A gateway as a candidate. -/
def candidate (state : GatewayPoolState) (capability : GatewayCapability) (now : Nat)
    (gateway : UInt64 × Nat) : SelectionCandidate :=
  let health := (state.health (gateway.1, capability)).getD .new
  let gatewayHealth := (state.gatewayHealth gateway.1).getD .new
  { index := gateway.2
    identity := gateway.1
    rank := rankFor state.seed gateway.1
    inFlight := health.inFlight
    cooldownMs := max (health.remainingCooldownMs now) (gatewayHealth.remainingCooldownMs now)
    capabilityCooling := health.isCooling now
    gatewayCooling := gatewayHealth.isCooling now }

/-- The best healthy gateway. If there is none, one that cools may do: the one that
    is idle and has cooled first, or else the least busy. -/
def choose (candidates : List SelectionCandidate) (preferredGatewayIndex : Option Nat)
    (policy : GatewaySelectionPolicy) : Option SelectionCandidate :=
  let healthy := (candidates.filter fun candidate => !candidate.cooling).argmin fun candidate =>
    toLex (if preferredGatewayIndex = some candidate.index then 0 else 1,
      toLex (candidate.inFlight, candidate.rank.toNat))
  healthy.or (if policy = .healthyOnly then none else
    ((candidates.filter fun candidate => candidate.inFlight = 0).argmin fun candidate =>
      toLex (candidate.cooldownMs, toLex (candidate.inFlight, candidate.rank.toNat))).or
    (candidates.argmin fun candidate => toLex (candidate.inFlight, candidate.rank.toNat)))

/-- Reserve a gateway. The attempt owns the probes that are due. -/
def reserve (state : GatewayPoolState) (capability : GatewayCapability) (now : Nat)
    (identity : UInt64) (index : Nat) : GatewayAttempt × GatewayPoolState :=
  let health := (state.health (identity, capability)).getD .new
  let ownsHalfOpen := health.takesHalfOpenProbe now
  let ownsGatewayHalfOpen :=
    (state.gatewayHealth identity).any fun health => health.takesHalfOpenProbe now
  ({ identity, capability, generation := state.generation, ownsHalfOpen, ownsGatewayHalfOpen,
     index, completed := false },
   { state with
     health := Function.update state.health (identity, capability)
       (some (health.reserve ownsHalfOpen))
     gatewayHealth := Function.update state.gatewayHealth identity
       ((state.gatewayHealth identity).map fun health =>
         { health with halfOpen := health.halfOpen || ownsGatewayHalfOpen }) })

/-- Choose a gateway that is not excluded and reserve it. -/
def selectExcludingWithPolicy (state : GatewayPoolState) (gatewayIds : List UInt64)
    (capability : GatewayCapability) (preferredGatewayIndex : Option Nat)
    (excludedIdentities : List UInt64) (policy : GatewaySelectionPolicy) (now : Nat) :
    Option (GatewayAttempt × GatewayPoolState) :=
  let candidates := (gatewayIds.zipIdx.filter fun gateway =>
    !excludedIdentities.contains gateway.1).map (state.candidate capability now)
  (choose candidates preferredGatewayIndex policy).map fun chosen =>
    state.reserve capability now chosen.identity chosen.index

/-- What both ways to end an attempt do first: give the reservation back and close
    the probes of the attempt. -/
def settle (state : GatewayPoolState) (attempt : GatewayAttempt) : GatewayPoolState :=
  let health := (state.health (attempt.identity, attempt.capability)).getD .new
  { state with
    health := Function.update state.health (attempt.identity, attempt.capability)
      (some (health.giveBack attempt.ownsHalfOpen))
    gatewayHealth := Function.update state.gatewayHealth attempt.identity
      ((state.gatewayHealth attempt.identity).map fun health =>
        health.closeProbe attempt.ownsGatewayHalfOpen) }

/-- End an attempt without a verdict, unless the pool was reset since. -/
def release (state : GatewayPoolState) (attempt : GatewayAttempt) : GatewayPoolState :=
  if state.generation = attempt.generation then state.settle attempt else state

/-- A success clears the failures of both entries. -/
def recordSuccess (state : GatewayPoolState) (identity : UInt64)
    (capability : GatewayCapability) : GatewayPoolState :=
  { state with
    health := Function.update state.health (identity, capability)
      ((state.health (identity, capability)).map GatewayHealth.clearFailures)
    gatewayHealth := Function.update state.gatewayHealth identity
      ((state.gatewayHealth identity).map GatewayHealth.clearFailures) }

/-- A failure cools the gateway as a whole or for the kind of request. -/
def recordFailure (state : GatewayPoolState) (identity : UInt64)
    (capability : GatewayCapability) (gatewayWide : Bool) (now : Nat) : GatewayPoolState :=
  if gatewayWide then
    { state with
      gatewayHealth := Function.update state.gatewayHealth identity
        (some (((state.gatewayHealth identity).getD .new).recordFailure now)) }
  else
    { state with
      health := Function.update state.health (identity, capability)
        ((state.health (identity, capability)).map fun health => health.recordFailure now) }

/-- Settle an attempt with its outcome: a success, or a failure at some time. -/
def finish (state : GatewayPoolState) (attempt : GatewayAttempt)
    (outcome : Option (GatewayFailure × Nat)) : GatewayPoolState :=
  if state.generation = attempt.generation then
    let settled := state.settle attempt
    match outcome with
    | none => settled.recordSuccess attempt.identity attempt.capability
    | some (error, now) =>
      settled.recordFailure attempt.identity attempt.capability (isGatewayWideFailure error) now
  else state

end GatewayPoolState

namespace GatewayAttempt

/-- The attempt has succeeded. -/
def success (attempt : GatewayAttempt) (pool : GatewayPoolState) :
    GatewayAttempt × GatewayPoolState :=
  ({ attempt with completed := true }, pool.finish attempt none)

/-- The attempt has failed. -/
def failure (attempt : GatewayAttempt) (pool : GatewayPoolState) (error : GatewayFailure)
    (now : Nat) : GatewayAttempt × GatewayPoolState :=
  ({ attempt with completed := true }, pool.finish attempt (some (error, now)))

/-- The end of an attempt, which comes after its outcome if it has one. -/
def drop (attempt : GatewayAttempt) (pool : GatewayPoolState) : GatewayPoolState :=
  if !attempt.completed then pool.release attempt else pool

end GatewayAttempt

/-- An attempt that is not dropped, with the number of resets before it was selected. -/
structure LiveAttempt where
  resets : Nat
  attempt : GatewayAttempt
deriving DecidableEq, Repr

/-- The pool and its attempts, with the number of resets so far. -/
structure GatewaySystem where
  pool : GatewayPoolState
  attempts : List LiveAttempt
  resets : Nat

/-- What threads can do. An attempt is named by its place among those that are not
    dropped. -/
inductive GatewayAction where
  | select (gatewayIds : List UInt64) (capability : GatewayCapability)
      (preferredGatewayIndex : Option Nat) (excludedIdentities : List UInt64)
      (policy : GatewaySelectionPolicy) (now : Nat)
  | success (index : Nat)
  | failure (index : Nat) (error : GatewayFailure) (now : Nat)
  | drop (index : Nat)
  | reset (seed : UInt64)
deriving DecidableEq, Repr

namespace GatewaySystem

/-- No attempts and no health. -/
def new (seed : UInt64) : GatewaySystem :=
  { pool := .new seed, attempts := [], resets := 0 }

/-- An attempt has an outcome. It stays until it is dropped. -/
def complete (system : GatewaySystem) (index : Nat)
    (outcome : GatewayAttempt → GatewayPoolState → GatewayAttempt × GatewayPoolState) :
    GatewaySystem :=
  match system.attempts[index]? with
  | none => system
  | some live =>
    let (attempt, pool) := outcome live.attempt system.pool
    { system with pool, attempts := system.attempts.set index { live with attempt } }

/-- An attempt is dropped. -/
def dropAttempt (system : GatewaySystem) (index : Nat) : GatewaySystem :=
  match system.attempts[index]? with
  | none => system
  | some live =>
    { system with
      pool := live.attempt.drop system.pool
      attempts := system.attempts.eraseIdx index }

end GatewaySystem

/-- One action. -/
def gatewayStep (system : GatewaySystem) : GatewayAction → GatewaySystem
  | .select gatewayIds capability preferred excluded policy now =>
    match system.pool.selectExcludingWithPolicy gatewayIds capability preferred excluded policy
      now with
    | none => system
    | some (attempt, pool) =>
      { system with pool, attempts := system.attempts ++ [⟨system.resets, attempt⟩] }
  | .success index => system.complete index GatewayAttempt.success
  | .failure index error now =>
    system.complete index fun attempt pool => attempt.failure pool error now
  | .drop index => system.dropAttempt index
  | .reset seed => { system with pool := system.pool.reset seed, resets := system.resets + 1 }

end Railgun
