import Railgun.Lib.Fallible
import Mathlib.Data.Finset.Union

/-!
# Loops that Refuse Repeated Keys

A loop that keeps the set of keys it has seen and fails at a key that is already
there succeeds exactly on lists without repetitions.

## Main definitions

* `Fresh`: Keys that such a loop accepts.

## Theorems

* `fresh_nil`, `fresh_empty`, `fresh_cons`, `fresh_append`: Keys are fresh part by part.
* `foldlM_fresh_eq_ok`: When a loop that refuses repeated keys succeeds.
-/

namespace Railgun

section Fresh

variable {K : Type} {seen : Finset K}

/-- Keys without repetition, none of them seen before. -/
def Fresh (seen : Finset K) (keys : List K) : Prop := keys.Nodup ∧ ∀ key ∈ keys, key ∉ seen

theorem fresh_nil : Fresh seen ([] : List K) :=
  ⟨List.nodup_nil, nofun⟩

theorem fresh_empty {keys : List K} : Fresh ∅ keys ↔ keys.Nodup :=
  ⟨fun h => h.1, fun h => ⟨h, fun key _ => Finset.notMem_empty key⟩⟩

variable [DecidableEq K]

theorem fresh_append {first second : List K} :
    Fresh seen (first ++ second) ↔ Fresh seen first ∧ Fresh (seen ∪ first.toFinset) second := by
  unfold Fresh
  simp only [List.nodup_append, List.mem_append, Finset.mem_union, List.mem_toFinset, not_or]
  constructor
  · rintro ⟨⟨hfirst, hsecond, hdisjoint⟩, hseen⟩
    exact ⟨⟨hfirst, fun key hkey => hseen key (.inl hkey)⟩, hsecond, fun key hkey =>
      ⟨hseen key (.inr hkey), fun hmem => hdisjoint key hmem key hkey rfl⟩⟩
  · rintro ⟨⟨hfirst, hseenFirst⟩, hsecond, hseenSecond⟩
    refine ⟨⟨hfirst, hsecond, fun key hkey other hother heq => ?_⟩, fun key hkey => ?_⟩
    · exact (hseenSecond other hother).2 (heq ▸ hkey)
    · exact hkey.elim (hseenFirst key) fun hkey => (hseenSecond key hkey).1

theorem fresh_cons {key : K} {keys : List K} :
    Fresh seen (key :: keys) ↔ key ∉ seen ∧ Fresh (insert key seen) keys := by
  rw [← List.singleton_append, fresh_append, Finset.insert_eq, Finset.union_comm {key}]
  refine and_congr_left fun _ => ⟨fun h => h.2 key (List.mem_singleton_self key), fun h =>
    ⟨List.nodup_singleton key, fun other hother => ?_⟩⟩
  rw [List.mem_singleton.mp hother]
  exact h

variable {A S ε : Type}

-- Induction on the list. The set and the result so far change with every step.
/-- A loop that fails at keys it has seen and at entries that are not good, and
    otherwise adds the entry to its result. -/
theorem foldlM_fresh_eq_ok {step : Finset K × S → A → Except ε (Finset K × S)} {key : A → K}
    {good : A → Prop} {add : S → A → S} {l : List A}
    (hstep : ∀ a ∈ l, ∀ seen result after, step (seen, result) a = .ok after ↔
      key a ∉ seen ∧ good a ∧ after = (insert (key a) seen, add result a))
    {result : S} {after : Finset K × S} :
    l.foldlM step (seen, result) = .ok after ↔
      Fresh seen (l.map key) ∧ (∀ a ∈ l, good a) ∧
        after = (seen ∪ (l.map key).toFinset, l.foldl add result) := by
  induction l generalizing seen result with
  | nil =>
    rw [List.map_nil, List.toFinset_nil, Finset.union_empty]
    refine ⟨fun h => ⟨fresh_nil, nofun, (Except.ok.inj h).symm⟩, ?_⟩
    rintro ⟨-, -, rfl⟩
    rfl
  | cons a l ih =>
    have hfirst := hstep a List.mem_cons_self
    have hrest := fun b hb => hstep b (List.mem_cons_of_mem a hb)
    rw [List.foldlM_cons, bind_eq_ok, List.map_cons, fresh_cons, List.forall_mem_cons,
      List.toFinset_cons, Finset.union_insert, ← Finset.insert_union]
    constructor
    · rintro ⟨middle, hmiddle, hafter⟩
      obtain ⟨hkey, hgood, rfl⟩ := (hfirst _ _ _).mp hmiddle
      obtain ⟨hfresh, hgoods, rfl⟩ := (ih hrest).mp hafter
      exact ⟨⟨hkey, hfresh⟩, ⟨hgood, hgoods⟩, rfl⟩
    · rintro ⟨⟨hkey, hfresh⟩, ⟨hgood, hgoods⟩, rfl⟩
      exact ⟨_, (hfirst _ _ _).mpr ⟨hkey, hgood, rfl⟩, (ih hrest).mpr ⟨hfresh, hgoods, rfl⟩⟩

end Fresh

end Railgun
