import Railgun.Core.GatewayPool
import Mathlib.Data.List.Perm.Basic

/-!
# Gateway Accounting

What an attempt holds are places in the pool: one in the count of its gateway and
kind of request, and the probes that it owns. The pool counts what is held. A
reservation adds what the new attempt holds, and the attempt gives it back either
with its outcome or when it is dropped without one. An attempt that has an outcome
is dropped as well, and the flag that it is completed keeps this from counting a
second time. So in every state the pool has counted exactly the attempts since the
last reset that are not completed.

## Main definitions

* `GatewaySlot`, `GatewayAttempt.holds`: The places that an attempt holds.
* `GatewayPoolState.usage`: What the pool has counted for a place.
* `LiveAttempt.isHolder`, `GatewaySystem.holders`: The attempts that hold a place.
* `GatewaySystem.Accounted`: The pool has counted the holders.
* `GatewayAction.Allowed`: What the types of the source rule out.
* `GatewaySystem.Exact`: What the accounts say.

## Theorems

* `usage_reserve`, `usage_settle`: What a reservation and its return count.
* `usage_finish`, `usage_release`: An outcome counts as little as a release.
* `accounted_settle`: An attempt that gives its places back is no holder any more.
* `accounted_complete`, `accounted_dropAttempt`: Outcomes and drops.
* `accounted_step`: A step keeps the accounts.
* `gatewayPool_exact`: The accounts of a run are exact.
-/

namespace Railgun

open GatewayAttempt GatewaySystem LiveAttempt
open GatewayHealth (reserve giveBack closeProbe)
open GatewayPoolState (recordFailure release)

/-- The places that are counted: attempts in flight, and probes for a kind of
    request and for a gateway as a whole. -/
inductive GatewaySlot where
  | inFlight (identity : UInt64) (capability : GatewayCapability)
  | probe (identity : UInt64) (capability : GatewayCapability)
  | gatewayProbe (identity : UInt64)
deriving DecidableEq, Repr

/-- The slots that an attempt takes. -/
def GatewayAttempt.holds (attempt : GatewayAttempt) : GatewaySlot → Bool
  | .inFlight identity capability =>
    (attempt.identity, attempt.capability) = (identity, capability)
  | .probe identity capability =>
    (attempt.identity, attempt.capability) = (identity, capability) && attempt.ownsHalfOpen
  | .gatewayProbe identity => attempt.identity = identity && attempt.ownsGatewayHalfOpen

/-- How many attempts are counted for a slot. -/
def GatewayPoolState.usage (state : GatewayPoolState) : GatewaySlot → Nat
  | .inFlight identity capability => ((state.health (identity, capability)).getD .new).inFlight
  | .probe identity capability =>
    ((state.health (identity, capability)).getD .new).halfOpen.toNat
  | .gatewayProbe identity => ((state.gatewayHealth identity).getD .new).halfOpen.toNat

/-- Whether an attempt that was selected after so many resets, and has no outcome yet,
    holds a place. -/
def LiveAttempt.isHolder (resets : Nat) (slot : GatewaySlot) (live : LiveAttempt) : Bool :=
  live.resets = resets && !live.attempt.completed && live.attempt.holds slot

/-- How many attempts since the last reset hold a place. -/
def GatewaySystem.holders (system : GatewaySystem) (slot : GatewaySlot) : Nat :=
  system.attempts.countP (isHolder system.resets slot)

/-- The places of a gateway and a kind of request. -/
def slotsOf (identity : UInt64) (capability : GatewayCapability) : List GatewaySlot :=
  [.inFlight identity capability, .probe identity capability, .gatewayProbe identity]

section Pool

variable {state : GatewayPoolState} {attempt : GatewayAttempt} {slot : GatewaySlot}

variable {now : Nat}

theorem takesHalfOpenProbe_halfOpen {health : GatewayHealth}
    (h : health.takesHalfOpenProbe now = true) : health.halfOpen = false := by
  rw [GatewayHealth.takesHalfOpenProbe, Bool.and_eq_true, Bool.not_eq_true'] at h
  exact h.2

theorem toNat_or_takes {health : GatewayHealth} :
    (health.halfOpen || health.takesHalfOpenProbe now).toNat =
      health.halfOpen.toNat + (health.takesHalfOpenProbe now).toNat := by
  cases htakes : health.takesHalfOpenProbe now with
  | false => rw [Bool.or_false]; rfl
  | true => rw [takesHalfOpenProbe_halfOpen htakes]; rfl

theorem toNat_and_not {halfOpen owns : Bool} :
    (halfOpen && !owns).toNat = halfOpen.toNat - owns.toNat := by
  cases halfOpen <;> cases owns <;> rfl

theorem not_holds_of_not_mem (h : slot ∉ slotsOf attempt.identity attempt.capability) :
    attempt.holds slot = false := by
  cases slot <;> grind [slotsOf, holds]

theorem usage_update (P : GatewaySlot → Nat → Prop) (identity : UInt64)
    (capability : GatewayCapability) (health gateway : Option GatewayHealth)
    (hinFlight : P (.inFlight identity capability) (health.getD .new).inFlight)
    (hprobe : P (.probe identity capability) (health.getD .new).halfOpen.toNat)
    (hgateway : P (.gatewayProbe identity) (gateway.getD .new).halfOpen.toNat)
    (hother : ∀ slot, slot ∉ slotsOf identity capability → P slot (state.usage slot))
    (slot : GatewaySlot) :
    P slot ({ state with
      health := Function.update state.health (identity, capability) health
      gatewayHealth := Function.update state.gatewayHealth identity gateway }.usage slot) := by
  by_cases hslot : slot ∈ slotsOf identity capability
  · simp only [slotsOf, List.mem_cons, List.not_mem_nil, or_false] at hslot
    rcases hslot with rfl | rfl | rfl
    all_goals
      simp only [GatewayPoolState.usage, Function.update_self]
      assumption
  · -- The other slots read other entries.
    refine (congrArg (P slot) ?_).mpr (hother slot hslot)
    cases slot <;> simp_all [slotsOf, GatewayPoolState.usage]

variable {capability : GatewayCapability} {identity : UInt64}

theorem usage_reserve {index : Nat}
    (hroom : ∀ slot, state.usage slot + 1 < 2 ^ 64) (slot : GatewaySlot) :
    (state.reserve capability now identity index).2.usage slot =
      state.usage slot +
        ((state.reserve capability now identity index).1.holds slot).toNat := by
  refine usage_update (fun slot usage => usage = state.usage slot +
    ((state.reserve capability now identity index).1.holds slot).toNat) _ _ _ _ ?_ ?_ ?_ ?_ slot
  · have hroom := hroom (.inFlight identity capability)
    simp only [GatewayPoolState.usage] at hroom
    simp only [Option.getD_some, reserve, GatewayPoolState.usage,
      GatewayPoolState.reserve, holds, decide_true, Bool.toNat_true]
    omega
  · simp [reserve, GatewayPoolState.usage, GatewayPoolState.reserve, holds, toNat_or_takes]
  · simp only [GatewayPoolState.usage, GatewayPoolState.reserve, holds, decide_true, Bool.true_and]
    cases state.gatewayHealth identity with
    | none => rfl
    | some health => exact toNat_or_takes
  · intro slot hslot
    rw [not_holds_of_not_mem hslot]
    rfl

theorem usage_settle (slot : GatewaySlot) :
    (state.settle attempt).usage slot = state.usage slot - (attempt.holds slot).toNat := by
  refine usage_update (fun slot usage => usage = state.usage slot - (attempt.holds slot).toNat)
    _ _ _ _ ?_ ?_ ?_ ?_ slot
  · simp [giveBack, closeProbe, GatewayPoolState.usage, holds]
  · simp [giveBack, closeProbe, GatewayPoolState.usage, holds, toNat_and_not]
  · simp only [GatewayPoolState.usage, holds, decide_true, Bool.true_and]
    cases state.gatewayHealth attempt.identity with
    | none => exact (Nat.zero_sub _).symm
    | some health => exact toNat_and_not
  · intro slot hslot
    rw [not_holds_of_not_mem hslot]
    rfl

theorem usage_update_eq (identity : UInt64) (capability : GatewayCapability)
    (health gateway : Option GatewayHealth)
    (hinFlight : (health.getD .new).inFlight =
      ((state.health (identity, capability)).getD .new).inFlight)
    (hprobe : (health.getD .new).halfOpen =
      ((state.health (identity, capability)).getD .new).halfOpen)
    (hgateway : (gateway.getD .new).halfOpen =
      ((state.gatewayHealth identity).getD .new).halfOpen) (slot : GatewaySlot) :
    { state with
      health := Function.update state.health (identity, capability) health
      gatewayHealth := Function.update state.gatewayHealth identity gateway }.usage slot =
      state.usage slot :=
  usage_update (fun slot usage => usage = state.usage slot) identity capability health gateway
    hinFlight (congrArg Bool.toNat hprobe) (congrArg Bool.toNat hgateway) (fun _ _ => rfl) slot

theorem usage_recordSuccess (slot : GatewaySlot) :
    (state.recordSuccess identity capability).usage slot = state.usage slot := by
  refine usage_update_eq identity capability _ _ ?_ ?_ ?_ slot
  · cases state.health (identity, capability) <;> rfl
  · cases state.health (identity, capability) <;> rfl
  · cases state.gatewayHealth identity <;> rfl

theorem usage_recordFailure {gatewayWide : Bool} (slot : GatewaySlot) :
    (state.recordFailure identity capability gatewayWide now).usage slot = state.usage slot := by
  rw [recordFailure]
  split
  · have hupdate := usage_update_eq identity capability (state.health (identity, capability))
      (some (((state.gatewayHealth identity).getD .new).recordFailure now)) rfl rfl rfl slot
    rw [Function.update_eq_self] at hupdate
    exact hupdate
  · have hupdate := usage_update_eq identity capability
      ((state.health (identity, capability)).map fun health => health.recordFailure now)
      (state.gatewayHealth identity) (by cases state.health (identity, capability) <;> rfl)
      (by cases state.health (identity, capability) <;> rfl) rfl slot
    rw [Function.update_eq_self] at hupdate
    exact hupdate

variable {outcome : Option (GatewayFailure × Nat)}

theorem usage_finish (hgeneration : state.generation = attempt.generation) (slot : GatewaySlot) :
    (state.finish attempt outcome).usage slot = state.usage slot - (attempt.holds slot).toNat := by
  rw [GatewayPoolState.finish, if_pos hgeneration]
  cases outcome with
  | none => exact (usage_recordSuccess slot).trans (usage_settle slot)
  | some failure => exact (usage_recordFailure slot).trans (usage_settle slot)

theorem usage_release (hgeneration : state.generation = attempt.generation)
    (slot : GatewaySlot) :
    (state.release attempt).usage slot = state.usage slot - (attempt.holds slot).toNat := by
  rw [release, if_pos hgeneration]
  exact usage_settle slot

theorem generation_finish : (state.finish attempt outcome).generation = state.generation := by
  rw [GatewayPoolState.finish]
  split
  · cases outcome with
    | none => rfl
    | some failure =>
      simp only [recordFailure]
      split <;> rfl
  · rfl

theorem generation_release : (state.release attempt).generation = state.generation := by
  rw [release]
  split <;> rfl

theorem finish_of_ne (hgeneration : state.generation ≠ attempt.generation) :
    state.finish attempt outcome = state := by
  rw [GatewayPoolState.finish, if_neg hgeneration]

theorem release_of_ne (hgeneration : state.generation ≠ attempt.generation) :
    state.release attempt = state := by
  rw [release, if_neg hgeneration]

end Pool

section System

variable {system : GatewaySystem}

/-- The pool has counted the attempts since the last reset. -/
structure GatewaySystem.Accounted (system : GatewaySystem) : Prop where
  generation_eq : system.pool.generation = system.resets
  attempts_of : ∀ live ∈ system.attempts,
    live.resets ≤ system.resets ∧ live.attempt.generation = live.resets
  attempts_lt : system.attempts.length < 2 ^ 64
  usage_eq : ∀ slot, system.pool.usage slot = system.holders slot

theorem accounted_new (seed : UInt64) : (GatewaySystem.new seed).Accounted where
  generation_eq := rfl
  attempts_of live h := absurd h List.not_mem_nil
  attempts_lt := Nat.two_pow_pos 64
  usage_eq slot := by cases slot <;> rfl

theorem exists_reserve_of_select {state pool : GatewayPoolState} {gatewayIds : List UInt64}
    {capability : GatewayCapability} {preferred : Option Nat} {excluded : List UInt64}
    {policy : GatewaySelectionPolicy} {now : Nat} {attempt : GatewayAttempt}
    (h : state.selectExcludingWithPolicy gatewayIds capability preferred excluded policy now =
      some (attempt, pool)) :
    ∃ identity index, state.reserve capability now identity index = (attempt, pool) := by
  obtain ⟨chosen, _, hchosen⟩ := Option.map_eq_some_iff.mp h
  exact ⟨chosen.identity, chosen.index, hchosen⟩

theorem accounted_select (capability : GatewayCapability) (now : Nat) (identity : UInt64)
    (index : Nat) (h : system.Accounted) (hroom : system.attempts.length + 1 < 2 ^ 64) :
    { system with
      pool := (system.pool.reserve capability now identity index).2
      attempts := system.attempts ++
        [⟨system.resets, (system.pool.reserve capability now identity index).1⟩] :
      GatewaySystem }.Accounted where
  generation_eq := h.generation_eq
  attempts_of := by
    intro live hlive
    rw [List.mem_append, List.mem_singleton] at hlive
    rcases hlive with hlive | rfl
    · exact h.attempts_of live hlive
    · exact ⟨le_rfl, h.generation_eq⟩
  attempts_lt := by
    rw [List.length_append, List.length_singleton]
    exact hroom
  usage_eq := by
    intro slot
    have hcounts : ∀ slot, system.pool.usage slot + 1 < 2 ^ 64 := fun slot => by
      rw [h.usage_eq slot]
      exact lt_of_le_of_lt (Nat.succ_le_succ List.countP_le_length) hroom
    rw [usage_reserve hcounts, h.usage_eq, holders, holders,
      List.countP_append, List.countP_singleton, isHolder]
    simp only [GatewayPoolState.reserve, decide_true, Bool.true_and, Bool.not_false]
    split <;> simp_all

/-- What ends an attempt: it takes away what an attempt of this generation holds,
    and does nothing for another one. -/
structure EndsAttempt (settle : GatewayPoolState → GatewayAttempt → GatewayPoolState) :
    Prop where
  usage_eq : ∀ state attempt, state.generation = attempt.generation → ∀ slot,
    (settle state attempt).usage slot = state.usage slot - (attempt.holds slot).toNat
  generation_eq : ∀ state attempt, (settle state attempt).generation = state.generation
  eq_of_ne : ∀ state attempt, state.generation ≠ attempt.generation →
    settle state attempt = state

theorem endsAttempt_finish (outcome : Option (GatewayFailure × Nat)) :
    EndsAttempt fun state attempt => state.finish attempt outcome :=
  ⟨fun _ _ => usage_finish, fun _ _ => generation_finish, fun _ _ => finish_of_ne⟩

theorem endsAttempt_release : EndsAttempt release :=
  ⟨fun _ _ => usage_release, fun _ _ => generation_release, fun _ _ => release_of_ne⟩

-- The attempt is one of the holders exactly if it has been selected since the last
-- reset, which is when its generation is that of the pool.
/-- The accounts are kept if an attempt without an outcome gives back what it holds and
    is no holder any more. -/
theorem accounted_settle {settle : GatewayPoolState → GatewayAttempt → GatewayPoolState}
    (hsettle : EndsAttempt settle) (h : system.Accounted) {live : LiveAttempt}
    (hlive : live ∈ system.attempts) (hopen : live.attempt.completed = false)
    {attempts : List LiveAttempt} (hattempts : ∀ other ∈ attempts,
      other.resets ≤ system.resets ∧ other.attempt.generation = other.resets)
    (hlength : attempts.length ≤ system.attempts.length)
    (hcount : ∀ slot, system.holders slot = attempts.countP (isHolder system.resets slot) +
        (live.isHolder system.resets slot).toNat) :
    { system with pool := settle system.pool live.attempt, attempts :
      GatewaySystem }.Accounted := by
  refine ⟨(hsettle.generation_eq _ _).trans h.generation_eq, hattempts,
    lt_of_le_of_lt hlength h.attempts_lt, fun slot => ?_⟩
  have hgeneration := (h.attempts_of live hlive).2
  have husage := (h.usage_eq slot).trans (hcount slot)
  rw [isHolder, hopen] at husage
  dsimp only [holders]
  by_cases hcurrent : live.resets = system.resets
  · rw [hsettle.usage_eq _ _ (by rw [h.generation_eq, hgeneration, hcurrent]), husage,
      decide_eq_true hcurrent]
    exact Nat.add_sub_cancel _ _
  · rw [hsettle.eq_of_ne _ _ (by rw [h.generation_eq, hgeneration]; exact Ne.symm hcurrent),
      husage, decide_eq_false hcurrent]
    rfl

variable {index : Nat} {live : LiveAttempt}

/-- Taking an attempt out takes it from the holders of a place. -/
theorem holders_eraseIdx (hlive : system.attempts[index]? = some live) (slot : GatewaySlot) :
    system.holders slot = (system.attempts.eraseIdx index).countP
      (isHolder system.resets slot) + (live.isHolder system.resets slot).toNat := by
  obtain ⟨hindex, rfl⟩ := List.getElem?_eq_some_iff.mp hlive
  have hperm := List.getElem_cons_eraseIdx_perm hindex
  rw [holders, ← hperm.countP_eq, List.countP_cons, Bool.toNat, cond_eq_ite]

/-- An outcome is counted once: the attempt is completed with it. -/
theorem accounted_complete
    (outcome : GatewayAttempt → GatewayPoolState → GatewayAttempt × GatewayPoolState)
    (hattempt : ∀ attempt pool, (outcome attempt pool).1 = { attempt with completed := true })
    (hpool : EndsAttempt fun pool attempt => (outcome attempt pool).2) (h : system.Accounted)
    (hopen : ∀ live ∈ system.attempts[index]?, live.attempt.completed = false) :
    (system.complete index outcome).Accounted := by
  rw [complete]
  cases hlive : system.attempts[index]? with
  | none => exact h
  | some live =>
    obtain ⟨hindex, -⟩ := List.getElem?_eq_some_iff.mp hlive
    have hmem : live ∈ system.attempts := List.mem_of_getElem? hlive
    dsimp only
    rw [hattempt]
    refine accounted_settle hpool h hmem (hopen live hlive) (fun other hother => ?_)
      (List.length_set ..).le fun slot => ?_
    · rcases List.mem_or_eq_of_mem_set hother with hother | rfl
      · exact h.attempts_of other hother
      · exact h.attempts_of live hmem
    · -- The completed attempt is no holder, so it may as well have been taken out.
      rw [(List.set_perm_cons_eraseIdx hindex _).countP_eq, List.countP_cons_of_neg]
      · exact holders_eraseIdx hlive slot
      · simp [isHolder]

/-- An attempt without an outcome gives its places back when it is dropped, and one with
    an outcome has done so before. -/
theorem accounted_dropAttempt (h : system.Accounted) (index : Nat) :
    (system.dropAttempt index).Accounted := by
  rw [dropAttempt]
  cases hlive : system.attempts[index]? with
  | none => exact h
  | some live =>
    have hattempts : ∀ other ∈ system.attempts.eraseIdx index,
        other.resets ≤ system.resets ∧ other.attempt.generation = other.resets :=
      fun other hother => h.attempts_of other (List.mem_of_mem_eraseIdx hother)
    have hlength : (system.attempts.eraseIdx index).length ≤ system.attempts.length :=
      List.length_eraseIdx_le ..
    dsimp only [drop]
    cases hcompleted : live.attempt.completed with
    | false =>
      exact accounted_settle endsAttempt_release h (List.mem_of_getElem? hlive) hcompleted
        hattempts hlength (holders_eraseIdx hlive)
    | true =>
      refine ⟨h.generation_eq, hattempts, lt_of_le_of_lt hlength h.attempts_lt, fun slot => ?_⟩
      have hcount := holders_eraseIdx hlive slot
      rw [isHolder, hcompleted] at hcount
      simpa [holders] using (h.usage_eq slot).trans hcount

-- No attempt is as young as the reset, so none is among the holders after it.
theorem accounted_reset (h : system.Accounted) (hroom : system.pool.generation + 1 < 2 ^ 64)
    (seed : UInt64) :
    { system with pool := system.pool.reset seed, resets := system.resets + 1 :
      GatewaySystem }.Accounted where
  generation_eq := by
    rw [GatewayPoolState.reset, Nat.mod_eq_of_lt hroom, h.generation_eq]
  attempts_of live hlive :=
    ⟨Nat.le_succ_of_le (h.attempts_of live hlive).1, (h.attempts_of live hlive).2⟩
  attempts_lt := h.attempts_lt
  usage_eq := by
    intro slot
    have hnone : (system.pool.reset seed).usage slot = 0 := by cases slot <;> rfl
    rw [hnone, eq_comm, holders, List.countP_eq_zero]
    intro live hlive
    have hold := (h.attempts_of live hlive).1
    simp only [isHolder, Bool.and_eq_true, decide_eq_true_eq, not_and]
    omega

/-- What cannot happen besides. The generation does not wrap at a reset, there is memory
    for fewer attempts than a machine word counts, and `success` and `failure` take an
    attempt by value, so one that has an outcome does not get another. -/
def GatewayAction.Allowed (system : GatewaySystem) : GatewayAction → Prop
  | .reset _ => system.pool.generation + 1 < 2 ^ 64
  | .select _ _ _ _ _ _ => system.attempts.length + 1 < 2 ^ 64
  | .success index => ∀ live ∈ system.attempts[index]?, live.attempt.completed = false
  | .failure index _ _ => ∀ live ∈ system.attempts[index]?, live.attempt.completed = false
  | .drop _ => True

theorem accounted_step (action : GatewayAction) (hallowed : action.Allowed system)
    (h : system.Accounted) : (gatewayStep system action).Accounted := by
  cases action with
  | select gatewayIds capability preferred excluded policy now =>
    rw [gatewayStep]
    split
    · exact h
    · next attempt pool hselect =>
      obtain ⟨identity, index, hreserve⟩ := exists_reserve_of_select hselect
      have haccounted := accounted_select capability now identity index h hallowed
      rw [hreserve] at haccounted
      exact haccounted
  | success index =>
    exact accounted_complete success (fun _ _ => rfl) (endsAttempt_finish none)
      h hallowed
  | failure index error now =>
    exact accounted_complete (fun attempt pool => attempt.failure pool error now)
      (fun _ _ => rfl) (endsAttempt_finish (some (error, now))) h hallowed
  | drop index => exact accounted_dropAttempt h index
  | reset seed => exact accounted_reset h hallowed seed

/-- The accounts of the pool are exact. -/
structure GatewaySystem.Exact (system : GatewaySystem) : Prop where
  /-- Every attempt since the last reset is in flight until it ends. -/
  inFlight_eq : ∀ identity capability,
    ((system.pool.health (identity, capability)).getD .new).inFlight =
      system.holders (.inFlight identity capability)
  /-- A probe is open while one attempt since the last reset owns it. -/
  halfOpen_iff : ∀ identity capability,
    ((system.pool.health (identity, capability)).getD .new).halfOpen = true ↔
      system.holders (.probe identity capability) = 1
  probe_le_one : ∀ identity capability, system.holders (.probe identity capability) ≤ 1
  gatewayHalfOpen_iff : ∀ identity,
    ((system.pool.gatewayHealth identity).getD .new).halfOpen = true ↔
      system.holders (.gatewayProbe identity) = 1
  gatewayProbe_le_one : ∀ identity, system.holders (.gatewayProbe identity) ≤ 1
  /-- An attempt that has an outcome changes nothing when it is dropped. -/
  completed_drop : ∀ live ∈ system.attempts, live.attempt.completed = true →
    live.attempt.drop system.pool = system.pool
  /-- Neither the outcome nor the drop of an attempt from before the last reset
      changes anything. -/
  stale_eq : ∀ live ∈ system.attempts, live.resets ≠ system.resets →
    (live.attempt.success system.pool).2 = system.pool ∧
      (∀ error now, (live.attempt.failure system.pool error now).2 = system.pool) ∧
      live.attempt.drop system.pool = system.pool

theorem GatewaySystem.Accounted.exact (h : system.Accounted) : system.Exact where
  inFlight_eq identity capability := h.usage_eq (.inFlight identity capability)
  halfOpen_iff identity capability := by
    rw [← h.usage_eq (.probe identity capability)]
    exact Bool.toNat_eq_one.symm
  probe_le_one identity capability := by
    rw [← h.usage_eq (.probe identity capability)]
    exact Bool.toNat_le _
  gatewayHalfOpen_iff identity := by
    rw [← h.usage_eq (.gatewayProbe identity)]
    exact Bool.toNat_eq_one.symm
  gatewayProbe_le_one identity := by
    rw [← h.usage_eq (.gatewayProbe identity)]
    exact Bool.toNat_le _
  completed_drop live _ hcompleted := by
    rw [drop, hcompleted]
    rfl
  stale_eq live hlive hold := by
    have hgeneration : system.pool.generation ≠ live.attempt.generation := by
      rw [h.generation_eq, (h.attempts_of live hlive).2]
      exact Ne.symm hold
    simp only [success, GatewayAttempt.failure, drop,
      finish_of_ne hgeneration, release_of_ne hgeneration, ite_self, implies_true, and_self]

/-- Whatever attempts do at the same time, the pool counts in flight exactly those
    since the last reset that have neither an outcome nor been dropped, a probe is open
    exactly while one of them owns it, no attempt gives its places back twice, and
    attempts from before the last reset change nothing. -/
theorem gatewayPool_exact (seed : UInt64) (actions : List GatewayAction)
    (hallowed : AllAllowed gatewayStep (fun system action => action.Allowed system) (.new seed)
      actions) :
    (runAll gatewayStep (.new seed) actions).Exact :=
  (runAll_keeps (fun _ action hallowed h => accounted_step action hallowed h) hallowed
    (accounted_new seed)).exact

/-- An attempt fails and another one outlives a reset. Then an attempt fails and is
    dropped, the gateway cools, and of two attempts after that the first one probes it. -/
def probedActions : List GatewayAction :=
  [.select [7] .artifactCar none [] .allowCoolingFallback 0, .reset 2, .success 0,
   .select [7] .artifactCar none [] .allowCoolingFallback 0,
   .failure 1 .other 0,
   .drop 1,
   .select [7] .artifactCar none [] .allowCoolingFallback gatewayFailureCooldown,
   .select [7] .artifactCar none [] .allowCoolingFallback gatewayFailureCooldown]

/-- Two attempts are in flight, and one of them owns the probe. -/
theorem gatewayPool_exact_probed :
    ((runAll gatewayStep (.new 1) probedActions).pool.health (7, .artifactCar)).map
        (fun health => (health.inFlight, health.halfOpen)) = some (2, true) ∧
      (runAll gatewayStep (.new 1) probedActions).holders (.inFlight 7 .artifactCar) = 2 ∧
      (runAll gatewayStep (.new 1) probedActions).holders (.probe 7 .artifactCar) = 1 := by
  have hallowed : AllAllowed gatewayStep (fun system action => action.Allowed system) (.new 1)
      probedActions := by
    dsimp only [AllAllowed, probedActions, GatewayAction.Allowed]
    decide +kernel
  have hexact := gatewayPool_exact 1 probedActions hallowed
  have hhealth : (runAll gatewayStep (.new 1) probedActions).pool.health (7, .artifactCar) =
      some ⟨1, some gatewayFailureCooldown, 2, true⟩ := by decide +kernel
  have hinFlight := hexact.inFlight_eq 7 .artifactCar
  have hprobe := (hexact.halfOpen_iff 7 .artifactCar).mp
  rw [hhealth] at hinFlight hprobe ⊢
  exact ⟨rfl, hinFlight.symm, hprobe rfl⟩

end System

end Railgun
