import Mathlib.Data.List.Nodup

/-!
# Lists with Keys

Lists of entries that are looked up by a key, and the loop that keeps the first
entry of each key. As long as no key occurs twice, what is found does not depend
on the order of the entries, and the loop keeps everything.

## Main definitions

* `keepFirst`: The images of the entries whose keys have not been seen.

## Theorems

* `lookup_filter_key`: What is found after entries have been dropped.
* `lookup_eq_some_iff_mem`: With distinct keys, what is found is what is there.
* `keepFirst_eq_map`: With distinct new keys, nothing is dropped.
* `flatMap_filter_of_nil`: Empty groups can be dropped.
* `filter_append_filter`: A sorted list is cut by a bound.
-/

namespace Railgun

section Lookup

variable {K V : Type} [BEq K] [LawfulBEq K]

theorem lookup_filter_key (p : K → Bool) (entries : List (K × V))
    (key : K) :
    (entries.filter fun entry => p entry.1).lookup key
      = if p key then entries.lookup key else none := by
  induction entries with
  | nil => rw [List.filter_nil, List.lookup_nil, ite_self]
  | cons entry entries ih =>
    rw [List.filter_cons]
    by_cases hkey : key = entry.1
    · cases hp : p entry.1 with
      | true => rw [if_pos rfl, List.lookup_cons, List.lookup_cons, hkey, hp, beq_self_eq_true,
          if_pos rfl]
      | false => rw [if_neg Bool.false_ne_true, ih, hkey, hp, if_neg Bool.false_ne_true,
          if_neg Bool.false_ne_true]
    · have hne : (key == entry.1) = false := beq_false_of_ne hkey
      rw [List.lookup_cons, hne]
      cases hp : p entry.1 with
      | true => rw [if_pos rfl, List.lookup_cons, hne, ih]
      | false => rw [if_neg Bool.false_ne_true, ih]

theorem lookup_eq_some_iff_mem {entries : List (K × V)} (h : (entries.map Prod.fst).Nodup)
    {key : K} {value : V} : entries.lookup key = some value ↔ (key, value) ∈ entries := by
  induction entries with
  | nil => simp only [List.lookup_nil, reduceCtorEq, List.not_mem_nil]
  | cons entry entries ih =>
    rw [List.map_cons, List.nodup_cons] at h
    rw [List.lookup_cons, List.mem_cons]
    by_cases hkey : key = entry.1
    · rw [hkey, beq_self_eq_true]
      constructor
      · intro hvalue
        exact .inl (Prod.ext rfl (Option.some.inj hvalue).symm)
      · rintro (heq | hmem)
        · rw [← heq]
        · exact absurd (List.mem_map_of_mem hmem) h.1
    · rw [beq_false_of_ne hkey]
      rw [ih h.2]
      constructor
      · exact .inr
      · rintro (heq | hmem)
        · exact absurd (congrArg Prod.fst heq) hkey
        · exact hmem

end Lookup

section KeepFirst

variable {K A B : Type} [DecidableEq K]

/-- The first entry of every key that was not seen. -/
def keepFirst (key : A → K) (f : A → B) : List K → List A → List B
  | _, [] => []
  | seen, a :: l =>
    if key a ∈ seen then keepFirst key f seen l else f a :: keepFirst key f (key a :: seen) l

theorem keepFirst_eq_map {key : A → K} (f : A → B) {seen : List K} {l : List A}
    (hnew : ∀ a ∈ l, key a ∉ seen) (hdistinct : (l.map key).Nodup) :
    keepFirst key f seen l = l.map f := by
  induction l generalizing seen with
  | nil => rfl
  | cons a l ih =>
    rw [List.map_cons, List.nodup_cons] at hdistinct
    rw [keepFirst, if_neg (hnew a List.mem_cons_self), List.map_cons, ih ?_ hdistinct.2]
    intro b hb
    rw [List.mem_cons, not_or]
    refine ⟨fun heq => hdistinct.1 ?_, hnew b (List.mem_cons_of_mem _ hb)⟩
    rw [← heq]
    exact List.mem_map_of_mem hb

theorem keepFirst_eq_nil {key : A → K} (f : A → B) {seen : List K} {l : List A}
    (hseen : ∀ a ∈ l, key a ∈ seen) : keepFirst key f seen l = [] := by
  induction l with
  | nil => rfl
  | cons a l ih =>
    rw [keepFirst, if_pos (hseen a List.mem_cons_self)]
    exact ih fun b hb => hseen b (List.mem_cons_of_mem _ hb)

end KeepFirst

section Groups

variable {A B : Type}

/-- Dropping groups is dropping their elements, if the elements of a group are
    all dropped or all kept. -/
theorem flatMap_filter_eq {l : List A} {g : A → List B} {q : A → Bool} {p : B → Bool}
    (h : ∀ a ∈ l, ∀ b ∈ g a, p b = q a) : (l.filter q).flatMap g = (l.flatMap g).filter p := by
  induction l with
  | nil => rfl
  | cons a l ih =>
    have hrest := ih fun a' ha' => h a' (List.mem_cons_of_mem _ ha')
    have hgroup := h a List.mem_cons_self
    rw [List.filter_cons, List.flatMap_cons, List.filter_append, ← hrest]
    cases hq : q a with
    | true =>
      have hkept : (g a).filter p = g a :=
        List.filter_eq_self.mpr fun b hb => (hgroup b hb).trans hq
      rw [if_pos rfl, List.flatMap_cons, hkept]
    | false =>
      have hdropped : (g a).filter p = [] :=
        List.filter_eq_nil_iff.mpr fun b hb => by rw [hgroup b hb, hq]; exact Bool.false_ne_true
      rw [if_neg Bool.false_ne_true, hdropped, List.nil_append]

theorem flatMap_filter_of_nil {l : List A} {g : A → List B} {q : A → Bool}
    (h : ∀ a ∈ l, q a = false → g a = []) : (l.filter q).flatMap g = l.flatMap g := by
  induction l with
  | nil => rfl
  | cons a l ih =>
    have hrest := ih fun a' ha' => h a' (List.mem_cons_of_mem _ ha')
    rw [List.filter_cons, List.flatMap_cons, ← hrest]
    cases hq : q a with
    | true => rw [if_pos rfl, List.flatMap_cons]
    | false => rw [if_neg Bool.false_ne_true, h a List.mem_cons_self hq, List.nil_append]

/-- What either of two exclusive conditions keeps is what one of them keeps and
    then what the other does. -/
theorem filter_append_filter_perm {l : List A} {p q r : A → Bool}
    (hr : ∀ a, r a = (p a || q a)) (hexclusive : ∀ a, p a = true → q a = false) :
    (l.filter p ++ l.filter q).Perm (l.filter r) := by
  have hp : (l.filter r).filter p = l.filter p := by
    rw [List.filter_filter]
    refine List.filter_congr fun a _ => ?_
    rw [hr]
    cases p a <;> rfl
  have hq : ((l.filter r).filter fun a => !p a) = l.filter q := by
    rw [List.filter_filter]
    refine List.filter_congr fun a _ => ?_
    rw [hr]
    cases hpa : p a with
    | true => rw [hexclusive a hpa]; rfl
    | false => rfl
  rw [← hp, ← hq]
  exact List.filter_append_perm p (l.filter r)

theorem filter_perm_filter_iff {l : List A} {p q : A → Bool} :
    (l.filter p).Perm (l.filter q) ↔ ∀ a ∈ l, p a = q a := by
  constructor
  · intro h a ha
    have hmem := @List.Perm.mem_iff _ a _ _ h
    rw [List.mem_filter, List.mem_filter] at hmem
    rw [Bool.eq_iff_iff]
    exact ⟨fun hp => (hmem.mp ⟨ha, hp⟩).2, fun hq => (hmem.mpr ⟨ha, hq⟩).2⟩
  · intro h
    rw [List.filter_congr h]

theorem filter_append_filter {l : List A} {value : A → Nat}
    (h : l.Pairwise fun a b => value a < value b) (bound : Nat) :
    (l.filter fun a => value a < bound) ++ (l.filter fun a => bound ≤ value a)
      = l := by
  induction l with
  | nil => rfl
  | cons a l ih =>
    rw [List.pairwise_cons] at h
    by_cases ha : value a < bound
    · rw [List.filter_cons, List.filter_cons, if_pos (decide_eq_true ha),
        if_neg (by rw [decide_eq_true_eq]; omega), List.cons_append, ih h.2]
    · rw [List.filter_cons, List.filter_cons, if_neg (by rw [decide_eq_true_eq]; exact ha),
        if_pos (by rw [decide_eq_true_eq]; omega)]
      have hnone : (l.filter fun a => value a < bound) = [] := by
        rw [List.filter_eq_nil_iff]
        intro b hb
        have := h.1 b hb
        rw [decide_eq_true_eq]
        omega
      have hall : (l.filter fun a => bound ≤ value a) = l := by
        rw [List.filter_eq_self]
        intro b hb
        have := h.1 b hb
        rw [decide_eq_true_eq]
        omega
      rw [hnone, hall, List.nil_append]

end Groups

end Railgun
