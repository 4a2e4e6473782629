import Mathlib.Data.List.Forall2

/-!
# Fallible Computations

Inversion rules for computations in `Except`: what is known when a sequence of
checks and steps has succeeded. These rules are equivalences, so they can take a
successful run apart and also put one together. `Ends` is for computations that
may fail for reasons of their own: it pairs what holds after success with what
an error can be.

## Main definitions

* `Ends`: A postcondition for success and one for failure.

## Theorems

* `bind_eq_ok`: A sequence succeeds when both parts do.
* `ite_error_eq_ok`: A guarded computation succeeds when the guard is false
  and the rest does.
* `mapM_eq_ok`: A loop succeeds when every element does.
* `Ends.bind`, `ends_mapM`, `ends_foldlM`: A postcondition for success and one for failure,
  carried through a sequence and through a loop.
-/

namespace Railgun

section Fallible

variable {ε α β : Type}

variable {f : α → Except ε β} {x : Except ε α} {b : β}

/-- Two steps succeed if the first does and the second does with its result. -/
theorem bind_eq_ok :
    (x >>= f) = .ok b ↔ ∃ a, x = .ok a ∧ f a = .ok b := by
  cases x with
  | error e =>
    constructor
    · intro h
      cases h
    · rintro ⟨a, ha, _⟩
      cases ha
  | ok a =>
    constructor
    · intro h
      exact ⟨a, rfl, h⟩
    · rintro ⟨a', ha', h⟩
      rw [Except.ok.injEq] at ha'
      rw [ha']
      exact h

theorem bind_pure_eq_ok {g : α → β} :
    (x >>= fun a => pure (g a)) = .ok b ↔ ∃ a, x = .ok a ∧ b = g a := by
  rw [bind_eq_ok]
  refine exists_congr fun a => and_congr_right fun _ => ?_
  rw [eq_comm (a := b)]
  exact Iff.of_eq (Except.ok.injEq _ _)

variable {a : α}

theorem pure_eq_ok {a' : α} : (pure a : Except ε α) = .ok a' ↔ a' = a := by
  rw [eq_comm (a := a')]
  exact Iff.of_eq (Except.ok.injEq _ _)

/-- A check that is passed changes nothing. -/
theorem ite_error_eq_ok {c : Prop} [Decidable c] {e : ε} :
    (if c then .error e else x) = .ok a ↔ ¬ c ∧ x = .ok a := by
  split_ifs with hc <;> simp [hc]

theorem ite_none_eq_ok {c : Prop} [Decidable c] {x : Except ε (Option α)} :
    (if c then .ok none else x) = .ok (some a) ↔ ¬ c ∧ x = .ok (some a) := by
  split_ifs with hc <;> simp [hc]

theorem map_eq_ok {f : α → β} :
    x.map f = .ok b ↔ ∃ a, x = .ok a ∧ b = f a := by
  cases x with
  | error e => simp only [Except.map, reduceCtorEq, false_and, exists_false]
  | ok a => simp [Except.map, eq_comm (a := b)]

theorem mapError_eq_ok {δ : Type} {f : ε → δ} :
    x.mapError f = .ok a ↔ x = .ok a := by
  cases x with
  | error e => simp only [Except.mapError, reduceCtorEq]
  | ok b => simp only [Except.mapError, Except.ok.injEq]

variable {l : List α}

/-- A loop of checks succeeds if every one does. -/
theorem foldlM_check_eq_ok {f : α → Except ε Unit} :
    l.foldlM (fun _ a => f a) () = .ok () ↔ ∀ a ∈ l, f a = .ok () := by
  induction l with
  | nil => exact ⟨nofun, fun _ => rfl⟩
  | cons a l ih =>
    rw [List.foldlM_cons, bind_eq_ok, List.forall_mem_cons, ← ih]
    exact ⟨fun ⟨_, h⟩ => h, fun h => ⟨(), h⟩⟩

theorem toOption_eq_some : x.toOption = some a ↔ x = .ok a := by
  cases x with
  | error e => simp only [Except.toOption, reduceCtorEq]
  | ok b => simp only [Except.toOption, Option.some.injEq, Except.ok.injEq]

variable {r : List β}

/-- A list is mapped if every element is. -/
theorem mapM_eq_ok :
    l.mapM f = .ok r ↔ List.Forall₂ (fun a b => f a = .ok b) l r := by
  induction l generalizing r with
  | nil =>
    rw [List.mapM_nil, List.forall₂_nil_left_iff]
    exact Except.ok.injEq [] r ▸ eq_comm
  | cons a l ih =>
    rw [List.mapM_cons, bind_eq_ok, List.forall₂_cons_left_iff]
    constructor
    · rintro ⟨b, hb, hrest⟩
      rcases bind_eq_ok.mp hrest with ⟨bs, hbs, hr⟩
      exact ⟨b, bs, hb, ih.mp hbs, (Except.ok.inj hr).symm⟩
    · rintro ⟨b, bs, hb, hbs, hr⟩
      refine ⟨b, hb, bind_eq_ok.mpr ⟨bs, ih.mpr hbs, ?_⟩⟩
      rw [hr]
      rfl

variable {γ : Type}

theorem map_eq_of_forall₂ {μ : α → γ} {ν : β → γ}
    (h : List.Forall₂ (fun a b => μ a = ν b) l r) : l.map μ = r.map ν := by
  induction h with
  | nil => rfl
  | cons hab _ ih => rw [List.map_cons, List.map_cons, hab, ih]

variable {R : α → β → Prop}

theorem forall₂_exists_left
    (h : List.Forall₂ R l r) (hb : b ∈ r) : ∃ a ∈ l, R a b := by
  induction h with
  | nil => cases hb
  | @cons a b' l r hab _ ih =>
    rcases List.mem_cons.mp hb with rfl | htail
    · exact ⟨a, List.mem_cons_self, hab⟩
    · obtain ⟨a', ha', hrel⟩ := ih htail
      exact ⟨a', List.mem_cons_of_mem _ ha', hrel⟩

theorem forall₂_factor {S : α → γ → Prop} {g : γ → β} (h : List.Forall₂ R l r)
    (hfactor : ∀ a b, R a b → ∃ c, S a c ∧ b = g c) :
    ∃ cs, List.Forall₂ S l cs ∧ r = cs.map g := by
  induction h with
  | nil => exact ⟨[], List.Forall₂.nil, rfl⟩
  | cons hab _ ih =>
    obtain ⟨cs, hcs, rfl⟩ := ih
    obtain ⟨c, hc, rfl⟩ := hfactor _ _ hab
    exact ⟨c :: cs, List.Forall₂.cons hc hcs, rfl⟩

theorem forall₂_imp_mem {S : α → β → Prop}
    (h : List.Forall₂ R l r) (himp : ∀ a b, a ∈ l → b ∈ r → R a b → S a b) :
    List.Forall₂ S l r := by
  induction h with
  | nil => exact List.Forall₂.nil
  | @cons a b l r hab _ ih =>
    refine List.Forall₂.cons (himp a b List.mem_cons_self List.mem_cons_self hab) (ih ?_)
    exact fun a' b' ha hb => himp a' b' (List.mem_cons_of_mem _ ha) (List.mem_cons_of_mem _ hb)

/-- What holds of the result when a computation succeeds, and of the error when
    it fails. -/
def Ends (P : α → Prop) (E : ε → Prop) : Except ε α → Prop
  | .ok a => P a
  | .error e => E e

variable {E : ε → Prop}

theorem Ends.mono {P Q : α → Prop} {F : ε → Prop} (h : Ends P E x)
    (hok : ∀ a, P a → Q a) (herror : ∀ e, E e → F e) : Ends Q F x := by
  cases x with
  | ok a => exact hok a h
  | error e => exact herror e h

/-- Steps end as required one after another. -/
theorem Ends.bind {P : α → Prop} {Q : β → Prop} (h : Ends P E x) (hf : ∀ a, P a → Ends Q E (f a)) :
    Ends Q E (x >>= f) := by
  cases x with
  | ok a => exact hf a h
  | error e => exact h

/-- A choice ends as required if both branches do. -/
theorem ends_ite {P : α → Prop} {c : Prop} [Decidable c] {y : Except ε α} (hx : c → Ends P E x)
    (hy : ¬ c → Ends P E y) : Ends P E (if c then x else y) := by
  split_ifs with h
  · exact hx h
  · exact hy h

theorem ends_mapM (h : ∀ a, Ends (R a) E (f a)) : Ends (List.Forall₂ R l) E (l.mapM f) := by
  induction l with
  | nil => exact List.Forall₂.nil
  | cons a l ih =>
    rw [List.mapM_cons]
    exact (h a).bind fun b hb => ih.bind fun bs hbs => List.Forall₂.cons hb hbs

/-- A loop ends as required if every step extends what has been done. -/
theorem ends_foldlM {σ τ : Type} {I : List τ → σ → Prop}
    {f : σ → α → Except ε σ} {parts : List (List τ)}
    (h : List.Forall₂ (fun a part => ∀ done s, I done s → Ends (I (done ++ part)) E (f s a)) l
      parts) {done : List τ} {s : σ} (hs : I done s) :
    Ends (I (done ++ parts.flatten)) E (l.foldlM f s) := by
  induction h generalizing done s with
  | nil =>
    rw [List.foldlM_nil, List.flatten_nil, List.append_nil]
    exact hs
  | cons hstep _ ih =>
    rw [List.foldlM_cons, List.flatten_cons, ← List.append_assoc]
    exact (hstep done s hs).bind fun s' hs' => ih hs'

end Fallible

end Railgun
