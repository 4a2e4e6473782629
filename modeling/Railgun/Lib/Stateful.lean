import Mathlib.Data.List.Basic

/-!
# Computations That Keep Their State When They Fail

A method that changes its object step by step and may return early with an
error leaves the object as far changed as it had got. Such methods are
computations that thread a state and may fail, where a failure keeps the state
reached so far.

`Keeps` is the rule of invariants for them: a property that every single change
keeps holds after the whole computation, whether it has succeeded or failed.

## Main definitions

* `Stateful.exec`: The result and the state reached.
* `Keeps`: A property of the state the computation keeps, however it ends.

## Theorems

* `exec_bind`: A sequence goes on from the state its first part has reached.
* `exec_bind_eq_ok`, `exec_ofExcept_bind_eq_ok`: When a sequence succeeds.
* `exec_bind_ne_error`: When a sequence does not fail with an error.
* `keeps_bind`, `keeps_foldlM`: What each step keeps, a sequence and a loop
  keep.
-/

namespace Railgun

/-- Computations that thread a state and may fail. A failure keeps the state
    reached so far. -/
abbrev Stateful (σ ε α : Type) := ExceptT ε (StateM σ) α

section Stateful

variable {σ ε α β : Type}

/-- The result of a method and the state it leaves, also when it fails. -/
def Stateful.exec (x : Stateful σ ε α) (s : σ) : Except ε α × σ := StateT.run (ExceptT.run x) s

theorem exec_get (s : σ) : (get : Stateful σ ε σ).exec s = (.ok s, s) := rfl

theorem exec_modify (f : σ → σ) (s : σ) :
    (modify f : Stateful σ ε PUnit).exec s = (.ok ⟨⟩, f s) := rfl

theorem exec_ofExcept (x : Except ε α) (s : σ) :
    (ofExcept x : Stateful σ ε α).exec s = (x, s) := by
  cases x with
  | ok a => rfl
  | error e => rfl

theorem exec_bind (x : Stateful σ ε α) (f : α → Stateful σ ε β) (s : σ) :
    (x >>= f).exec s = match x.exec s with
      | (.ok a, s') => (f a).exec s'
      | (.error e, s') => (.error e, s') := by
  have hbind : (x >>= f).exec s
      = (ExceptT.bindCont f (x.exec s).1 : StateM σ (Except ε β)).run (x.exec s).2 := rfl
  rw [hbind]
  generalize x.exec s = reached
  obtain ⟨result, s'⟩ := reached
  cases result with
  | ok a => rfl
  | error e => rfl

variable {f : α → Stateful σ ε β} {x : Stateful σ ε α} {s : σ}

/-- A sequence succeeds when its first part does and its second part does from
    the state reached. -/
theorem exec_bind_eq_ok {s'' : σ} {b : β} :
    (x >>= f).exec s = (.ok b, s'')
      ↔ ∃ a s', x.exec s = (.ok a, s') ∧ (f a).exec s' = (.ok b, s'') := by
  rw [exec_bind]
  generalize x.exec s = reached
  obtain ⟨result, s'⟩ := reached
  cases result with
  | ok a =>
    constructor
    · exact fun h => ⟨a, s', rfl, h⟩
    · rintro ⟨a', t, hreached, h⟩
      obtain ⟨hresult, rfl⟩ := Prod.mk.inj hreached
      rw [Except.ok.inj hresult]
      exact h
  | error e =>
    constructor
    · intro h
      cases h
    · rintro ⟨a', t, hreached, -⟩
      cases hreached

variable {s' : σ} {a : α}

theorem exec_bind_of_ok (h : x.exec s = (.ok a, s'))
    (f : α → Stateful σ ε β) : (x >>= f).exec s = (f a).exec s' := by
  rw [exec_bind, h]

/-- A sequence fails with an error only if one of its parts does. -/
theorem exec_bind_ne_error {e : ε} (hx : (x.exec s).1 ≠ .error e)
    (hf : ∀ a s', x.exec s = (.ok a, s') → ((f a).exec s').1 ≠ .error e) :
    ((x >>= f).exec s).1 ≠ .error e := by
  rw [exec_bind]
  generalize x.exec s = reached at hx hf
  obtain ⟨result, s'⟩ := reached
  cases result with
  | ok a => exact hf a s' rfl
  | error e' => exact fun h => hx (congrArg Except.error (Except.error.inj h))

/-- A check succeeds without changing the state. -/
theorem exec_ofExcept_bind_eq_ok {x : Except ε α} {b : β} :
    (ofExcept x >>= f).exec s = (.ok b, s') ↔ ∃ a, x = .ok a ∧ (f a).exec s = (.ok b, s') := by
  rw [exec_bind_eq_ok]
  constructor
  · rintro ⟨a, t, hx, hf⟩
    rw [exec_ofExcept] at hx
    obtain ⟨hresult, rfl⟩ := Prod.mk.inj hx
    exact ⟨a, hresult, hf⟩
  · rintro ⟨a, rfl, hf⟩
    exact ⟨a, s, rfl, hf⟩

theorem exec_pure_eq_ok {b : α} :
    (pure a : Stateful σ ε α).exec s = (.ok b, s') ↔ a = b ∧ s = s' := by
  constructor
  · intro h
    exact ⟨Except.ok.inj (Prod.mk.inj h).1, (Prod.mk.inj h).2⟩
  · rintro ⟨rfl, rfl⟩
    rfl

theorem exec_throw_ne_ok {e : ε} :
    (throw e : Stateful σ ε α).exec s ≠ (.ok a, s') := by
  intro h
  cases h

/-- A condition for failing does not hold if a method succeeds. -/
theorem exec_ite_throw_eq_ok {c : Prop} [Decidable c] {e : ε} :
    (if c then throw e else x).exec s = (.ok a, s') ↔ ¬ c ∧ x.exec s = (.ok a, s') := by
  split_ifs with hc
  · exact ⟨fun h => absurd h exec_throw_ne_ok, fun h => absurd hc h.1⟩
  · exact (and_iff_right hc).symm

/-- A loop succeeds when every element meets the condition of its step, and then
    it has done what the steps do one after another. -/
theorem exec_foldlM_eq_ok {f : β → α → Stateful σ ε β} {fits : α → Prop} {count : β → α → β}
    {next : σ → α → σ}
    (hstep : ∀ b a s b' s', (f b a).exec s = (.ok b', s')
      ↔ fits a ∧ b' = count b a ∧ s' = next s a) (l : List α) :
    ∀ (b : β) (s : σ) (b' : β) (s' : σ), (l.foldlM f b).exec s = (.ok b', s')
      ↔ (∀ a ∈ l, fits a) ∧ b' = l.foldl count b ∧ s' = l.foldl next s := by
  induction l with
  | nil =>
    intro b s b' s'
    rw [List.foldlM_nil, exec_pure_eq_ok, eq_comm, eq_comm (a := s)]
    exact (and_iff_right nofun).symm
  | cons a l ih =>
    intro b s b' s'
    simp [exec_bind_eq_ok, hstep, ih, and_assoc]

/-- A method keeps an invariant, whether it succeeds or fails. -/
def Keeps (I : σ → Prop) (x : Stateful σ ε α) : Prop := ∀ s, I s → I (x.exec s).2

variable {I : σ → Prop}

theorem Keeps.of_exec_eq (hx : Keeps I x) (hs : I s)
    (heq : some (x.exec s).2 = some s') : I s' := by
  rw [← Option.some.inj heq]
  exact hx s hs

theorem keeps_pure (a : α) : Keeps I (pure a : Stateful σ ε α) := fun _ hs => hs

theorem keeps_throw (e : ε) : Keeps I (throw e : Stateful σ ε α) := fun _ hs => hs

theorem keeps_modify {f : σ → σ} (h : ∀ s, I s → I (f s)) :
    Keeps I (modify f : Stateful σ ε PUnit) := h

theorem keeps_ofExcept (x : Except ε α) : Keeps I (ofExcept x : Stateful σ ε α) := by
  cases x with
  | ok a => exact keeps_pure a
  | error e => exact keeps_throw e

/-- Methods that keep an invariant keep it one after another. -/
theorem keeps_bind (hx : Keeps I x)
    (hf : ∀ a, Keeps I (f a)) : Keeps I (x >>= f) := by
  intro s hs
  have hstep := hx s hs
  rw [exec_bind]
  generalize x.exec s = reached at hstep
  obtain ⟨result, s'⟩ := reached
  cases result with
  | ok a => exact hf a s' hstep
  | error e => exact hstep

theorem keeps_get_bind {f : σ → Stateful σ ε α} (hf : ∀ s, Keeps I (f s)) :
    Keeps I (get >>= f) := fun s hs => hf s s hs

theorem keeps_ofExcept_bind {x : Except ε α} (hf : ∀ a, Keeps I (f a)) :
    Keeps I (ofExcept x >>= f) := keeps_bind (keeps_ofExcept x) hf

theorem keeps_modify_bind {g : σ → σ} {f : PUnit → Stateful σ ε α} (hg : ∀ s, I s → I (g s))
    (hf : ∀ u, Keeps I (f u)) : Keeps I (modify g >>= f) := keeps_bind (keeps_modify hg) hf

/-- A method that branches keeps what both branches keep. -/
theorem keeps_ite {c : Prop} [Decidable c] {y : Stateful σ ε α} (hx : Keeps I x)
    (hy : Keeps I y) : Keeps I (if c then x else y) := by
  split_ifs
  · exact hx
  · exact hy

theorem keeps_exists {ι : Type} {P : ι → σ → Prop}
    (h : ∀ i, Keeps (P i) x) : Keeps (fun s => ∃ i, P i s) x := by
  rintro s ⟨i, hs⟩
  exact ⟨i, h i s hs⟩

theorem keeps_tryCatch {handler : ε → Stateful σ ε α} (hx : Keeps I x)
    (hhandler : ∀ e, Keeps I (handler e)) : Keeps I (tryCatch x handler) := by
  intro s hs
  have hstep := hx s hs
  -- Only what the computation reaches from this state matters.
  have hrun : (tryCatch x handler : Stateful σ ε α).exec s
      = (tryCatch (fun _ => x.exec s) handler : Stateful σ ε α).exec s := rfl
  rw [hrun]
  generalize x.exec s = reached at hstep
  obtain ⟨result, s'⟩ := reached
  cases result with
  | ok a => exact hstep
  | error e => exact hhandler e s' hstep

/-- A loop keeps what its steps keep. -/
theorem keeps_foldlM {f : β → α → Stateful σ ε β} (l : List α)
    (h : ∀ b, ∀ a ∈ l, Keeps I (f b a)) (b : β) : Keeps I (l.foldlM f b) := by
  induction l generalizing b with
  | nil =>
    rw [List.foldlM_nil]
    exact keeps_pure b
  | cons a l ih =>
    rw [List.foldlM_cons]
    exact keeps_bind (h b a List.mem_cons_self) fun b' =>
      ih (fun b a ha => h b a (List.mem_cons_of_mem _ ha)) b'

end Stateful

end Railgun
