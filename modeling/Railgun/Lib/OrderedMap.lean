import Mathlib.Data.List.Basic
import Std.Data.ExtTreeMap

/-!
# Ordered Maps and Flat Layers

Ordered maps with natural keys, read in key order, and the flat lists their
entries are written into. A list of entries stands for a partial function as
long as no key occurs twice, and writing such a list over a constant layer
gives the layer of that function.

## Main definitions

* `BTreeMap`: An ordered map.
* `insertRun`, `eraseRun`: Storing values at consecutive keys, and removing
  consecutive keys.

## Theorems

* `flatMap_insert_group`: Adding a value to its group.
* `represents_toList`, `represents_rangeEntries`, `represents_enumerate`: What
  the three sources of entries stand for.
* `getElem?_insertRun`, `getElem?_eraseRun`: What a map holds after a run.
-/

namespace Railgun

/-- An ordered map. Two maps are equal when they hold the same entries. -/
abbrev BTreeMap (K V : Type) [Ord K] := Std.ExtTreeMap K V

section Keys

variable {K V : Type} [Ord K] [Std.TransOrd K] [Std.LawfulEqOrd K]

theorem toList_keys_distinct (map : BTreeMap K V) :
    map.toList.Pairwise fun a b => a.1 ≠ b.1 := by
  refine Std.ExtTreeMap.distinct_keys_toList.imp fun {a b} hne heq => hne ?_
  rw [Std.LawfulEqCmp.compare_eq_iff_eq]
  exact heq

theorem toList_nodup (map : BTreeMap K V) : map.toList.Nodup :=
  (toList_keys_distinct map).imp fun hne heq => hne (congrArg Prod.fst heq)

variable [DecidableEq K]

theorem getElem?_insert_key (map : BTreeMap K V) (key : K) (value : V) (i : K) :
    (map.insert key value)[i]? = if key = i then some value else map[i]? := by
  rw [Std.ExtTreeMap.getElem?_insert]
  simp only [Std.LawfulEqCmp.compare_eq_iff_eq]

theorem getElem?_erase_key (map : BTreeMap K V) (key i : K) :
    (map.erase key)[i]? = if key = i then none else map[i]? := by
  rw [Std.ExtTreeMap.getElem?_erase]
  simp only [Std.LawfulEqCmp.compare_eq_iff_eq]

/-- An entry of a map and the others. -/
theorem toList_perm_cons {map : BTreeMap K V} {key : K} {value : V} (h : map[key]? = some value) :
    map.toList.Perm ((key, value) :: map.toList.filter fun entry => entry.1 ≠ key) := by
  refine (List.perm_ext_iff_of_nodup (toList_nodup map) ?_).mpr ?_
  · rw [List.nodup_cons, List.mem_filter]
    exact ⟨fun hmem => of_decide_eq_true hmem.2 rfl, (toList_nodup map).filter _⟩
  · rintro ⟨k, v⟩
    rw [List.mem_cons, List.mem_filter, decide_eq_true_eq,
      Std.ExtTreeMap.mem_toList_iff_getElem?_eq_some, Prod.mk.injEq]
    by_cases hkey : k = key
    · subst hkey
      rw [h, Option.some.injEq]
      constructor
      · exact fun hvalue => Or.inl ⟨rfl, hvalue.symm⟩
      · rintro (⟨-, rfl⟩ | ⟨-, hne⟩)
        · rfl
        · exact absurd rfl hne
    · constructor
      · exact fun hmem => Or.inr ⟨hmem, hkey⟩
      · rintro (⟨heq, -⟩ | ⟨hmem, -⟩)
        · exact absurd heq hkey
        · exact hmem

theorem filter_toList_insert (map : BTreeMap K V) (key : K) (value : V) :
    ((map.insert key value).toList.filter fun entry => entry.1 ≠ key).Perm
      (map.toList.filter fun entry => entry.1 ≠ key) := by
  refine (List.perm_ext_iff_of_nodup ((toList_nodup _).filter _) ((toList_nodup _).filter _)).mpr ?_
  rintro ⟨k, v⟩
  rw [List.mem_filter, List.mem_filter, decide_eq_true_eq,
    Std.ExtTreeMap.mem_toList_iff_getElem?_eq_some,
    Std.ExtTreeMap.mem_toList_iff_getElem?_eq_some, getElem?_insert_key]
  refine and_congr_left fun hne => ?_
  rw [if_neg (Ne.symm hne)]

/-- A value added to its group is added to the values of all groups. -/
theorem flatMap_insert_group (map : BTreeMap K (List V)) (key : K) (value : V) :
    ((map.insert key (map[key]?.getD [] ++ [value])).toList.flatMap Prod.snd).Perm
      (map.toList.flatMap Prod.snd ++ [value]) := by
  have hself : (map.insert key (map[key]?.getD [] ++ [value]))[key]? =
      some (map[key]?.getD [] ++ [value]) := by
    rw [getElem?_insert_key, if_pos rfl]
  have hinserted := (toList_perm_cons hself).trans ((filter_toList_insert map key _).cons _)
  refine (hinserted.flatMap_right Prod.snd).trans ?_
  rw [List.flatMap_cons]
  cases hget : map[key]? with
  | some group =>
    -- The group of the key is there already and comes with the other entries.
    have hold := (toList_perm_cons hget).flatMap_right Prod.snd
    rw [List.flatMap_cons] at hold
    refine .trans ?_ (hold.symm.append_right [value])
    rw [List.append_assoc, List.append_assoc]
    exact List.perm_append_comm.append_left group
  | none =>
    have hall : (map.toList.filter fun entry => entry.1 ≠ key) = map.toList := by
      refine List.filter_eq_self.mpr fun entry hmem => decide_eq_true fun heq => ?_
      have hentry := Std.ExtTreeMap.mem_toList_iff_getElem?_eq_some.mp hmem
      rw [heq, hget] at hentry
      cases hentry
    rw [Option.getD_none, List.nil_append, hall]
    exact List.perm_append_comm

end Keys

section Entries

variable {V : Type}

/-- The entries of a map with keys from `low` on and below `high`, in key
    order. -/
def rangeEntries (map : BTreeMap Nat V) (low high : Nat) : List (Nat × V) :=
  map.toList.filter fun entry => low ≤ entry.1 ∧ entry.1 < high

/-- The elements of a list, keyed by their positions. -/
def enumerate (l : List V) : List (Nat × V) := l.zipIdx.map Prod.swap

/-- Store each entry at its position. An entry past the end is dropped. -/
def writeEntries (layer : List V) (entries : List (Nat × V)) : List V :=
  entries.foldl (fun layer entry => layer.set entry.1 entry.2) layer

/-- A list of entries stands for a partial function: it holds the entries of
    its graph, each key once. -/
structure Represents (entries : List (Nat × V)) (f : Nat → Option V) : Prop where
  keys_distinct : entries.Pairwise fun a b => a.1 ≠ b.1
  mem_iff : ∀ i v, (i, v) ∈ entries ↔ f i = some v

theorem represents_toList (map : BTreeMap Nat V) :
    Represents map.toList fun i => map[i]? where
  keys_distinct := toList_keys_distinct map
  mem_iff _ _ := Std.ExtTreeMap.mem_toList_iff_getElem?_eq_some

/-- The entries of a range represent the map within it. -/
theorem represents_rangeEntries (map : BTreeMap Nat V) (low high : Nat) :
    Represents (rangeEntries map low high)
      fun i => if low ≤ i ∧ i < high then map[i]? else none := by
  have hall := represents_toList map
  constructor
  · exact hall.keys_distinct.filter _
  · intro i v
    rw [rangeEntries, List.mem_filter, hall.mem_iff, decide_eq_true_eq]
    by_cases hrange : low ≤ i ∧ i < high
    · simp only [hrange, and_self, and_true, if_true]
    · simp only [hrange, and_false, if_false, reduceCtorEq]

theorem represents_enumerate (l : List V) : Represents (enumerate l) fun i => l[i]? := by
  constructor
  · rw [enumerate, List.pairwise_map, List.pairwise_iff_getElem]
    simp only [List.getElem_zipIdx, Prod.fst_swap]
    omega
  · intro i v
    simp only [enumerate, List.mem_map, Prod.exists, Prod.swap_prod_mk, Prod.mk.injEq]
    constructor
    · rintro ⟨a, k, hmem, rfl, rfl⟩
      exact List.mem_zipIdx_iff_getElem?.mp hmem
    · intro h
      exact ⟨v, i, List.mem_zipIdx_iff_getElem?.mpr h, rfl, rfl⟩

@[simp]
theorem length_writeEntries (layer : List V) (entries : List (Nat × V)) :
    (writeEntries layer entries).length = layer.length := by
  induction entries generalizing layer with
  | nil => rfl
  | cons entry entries ih =>
    rw [writeEntries, List.foldl_cons, ← writeEntries, ih, List.length_set]

theorem getElem?_writeEntries_of_not_mem {entries : List (Nat × V)} {i : Nat}
    (h : ∀ entry ∈ entries, entry.1 ≠ i) (layer : List V) :
    (writeEntries layer entries)[i]? = layer[i]? := by
  induction entries generalizing layer with
  | nil => rfl
  | cons entry entries ih =>
    rw [writeEntries, List.foldl_cons, ← writeEntries,
      ih (fun e he => h e (List.mem_cons_of_mem _ he)),
      List.getElem?_set_ne (h entry List.mem_cons_self)]

/-- An entry is found where it has been written. -/
theorem getElem?_writeEntries_of_mem {entries : List (Nat × V)} {i : Nat} {v : V}
    (hdistinct : entries.Pairwise fun a b => a.1 ≠ b.1) (hmem : (i, v) ∈ entries)
    {layer : List V} (hi : i < layer.length) :
    (writeEntries layer entries)[i]? = some v := by
  induction entries generalizing layer with
  | nil => cases hmem
  | cons entry entries ih =>
    rw [List.pairwise_cons] at hdistinct
    rw [writeEntries, List.foldl_cons, ← writeEntries]
    rcases List.mem_cons.mp hmem with heq | htail
    · -- The entry is written first, and no later entry has its key.
      subst heq
      rw [getElem?_writeEntries_of_not_mem (fun e he => (hdistinct.1 e he).symm),
        List.getElem?_set_self hi]
    · exact ih hdistinct.2 htail (by rw [List.length_set]; exact hi)

/-- Entries that stand for a function, written over a constant layer, give the
    layer of that function. -/
theorem getElem?_writeEntries {entries : List (Nat × V)} {f : Nat → Option V}
    (h : Represents entries f) (n : Nat) (zero : V) {i : Nat} (hi : i < n) :
    (writeEntries (List.replicate n zero) entries)[i]? = some ((f i).getD zero) := by
  cases hf : f i with
  | some v =>
    exact getElem?_writeEntries_of_mem h.keys_distinct ((h.mem_iff i v).mpr hf)
      (by rw [List.length_replicate]; exact hi)
  | none =>
    rw [getElem?_writeEntries_of_not_mem, List.getElem?_replicate_of_lt hi]
    · rfl
    · intro entry hmem heq
      rw [← heq] at hf
      rw [(h.mem_iff entry.1 entry.2).mp hmem] at hf
      cases hf

/-- Store values at consecutive keys. -/
def insertRun (map : BTreeMap Nat V) (start : Nat) : List V → BTreeMap Nat V
  | [] => map
  | value :: values => insertRun (map.insert start value) (start + 1) values

/-- Remove consecutive keys. -/
def eraseRun (map : BTreeMap Nat V) (start : Nat) : Nat → BTreeMap Nat V
  | 0 => map
  | count + 1 => eraseRun (map.erase start) (start + 1) count

/-- A run of values is found at its keys, and nothing else changes. -/
theorem getElem?_insertRun (values : List V) (map : BTreeMap Nat V) (start i : Nat) :
    (insertRun map start values)[i]?
      = if start ≤ i ∧ i < start + values.length then values[i - start]? else map[i]? := by
  induction values generalizing map start with
  | nil => rw [insertRun, if_neg (by rw [List.length_nil]; omega)]
  | cons value values ih =>
    -- The first value is stored at the start, and no later one is.
    rw [insertRun, ih, getElem?_insert_key, List.length_cons]
    grind

theorem getElem?_eraseRun (count : Nat) (map : BTreeMap Nat V) (start i : Nat) :
    (eraseRun map start count)[i]? = if start ≤ i ∧ i < start + count then none else map[i]? := by
  induction count generalizing map start with
  | zero => rw [eraseRun, if_neg (by omega)]
  | succ count ih =>
    rw [eraseRun, ih, getElem?_erase_key]
    grind

theorem insertRun_append (values : List V) (map : BTreeMap Nat V) (start : Nat) (more : List V) :
    insertRun map start (values ++ more)
      = insertRun (insertRun map start values) (start + values.length) more := by
  induction values generalizing map start with
  | nil => rfl
  | cons value values ih =>
    rw [List.cons_append, insertRun, insertRun, ih, List.length_cons,
      show start + 1 + values.length = start + (values.length + 1) by omega]

theorem eraseRun_succ (map : BTreeMap Nat V) (start count : Nat) :
    eraseRun map start (count + 1) = (eraseRun map start count).erase (start + count) := by
  refine Std.ExtTreeMap.ext_getElem? fun i => ?_
  rw [getElem?_erase_key, getElem?_eraseRun, getElem?_eraseRun]
  grind

/-- The first values of a run are taken out of it. -/
theorem eraseRun_insertRun {start count : Nat} {values : List V} (h : count ≤ values.length) :
    eraseRun (insertRun (∅ : BTreeMap Nat V) start values) start count
      = insertRun ∅ (start + count) (values.drop count) := by
  refine Std.ExtTreeMap.ext_getElem? fun i => ?_
  rw [getElem?_eraseRun, getElem?_insertRun, getElem?_insertRun, Std.ExtTreeMap.getElem?_empty,
    List.length_drop, List.getElem?_drop]
  grind

/-- A run is what it takes out first and the run of the other values. -/
theorem eq_insertRun_cons {map : BTreeMap Nat V} {start : Nat} {value : V} {values : List V} :
    map = insertRun ∅ start (value :: values) ↔
      map[start]? = some value ∧ map.erase start = insertRun ∅ (start + 1) values := by
  have hget : ∀ i : Nat, (insertRun (∅ : BTreeMap Nat V) start (value :: values))[i]?
      = if start = i then some value else (insertRun ∅ (start + 1) values)[i]? := by
    intro i
    rw [getElem?_insertRun, getElem?_insertRun, Std.ExtTreeMap.getElem?_empty, List.length_cons]
    grind
  constructor
  · rintro rfl
    refine ⟨(hget start).trans (if_pos rfl), Std.ExtTreeMap.ext_getElem? fun i => ?_⟩
    rw [getElem?_erase_key, hget, getElem?_insertRun, Std.ExtTreeMap.getElem?_empty]
    grind
  · rintro ⟨hfirst, hrest⟩
    refine Std.ExtTreeMap.ext_getElem? fun i => ?_
    rw [hget, ← hrest, getElem?_erase_key]
    grind

/-- Runs are equal if they have the same values from the same key on. -/
theorem insertRun_inj {start start' : Nat} {values values' : List V} :
    insertRun (∅ : BTreeMap Nat V) start values = insertRun ∅ start' values' ↔
      values = values' ∧ (values = [] ∨ start = start') := by
  constructor
  · intro h
    have hget (i : Nat) := congrArg (·[i]?) h
    simp only [getElem?_insertRun, Std.ExtTreeMap.getElem?_empty] at hget
    -- Each run holds a value at the first key of the other.
    have hstart := hget start
    have hstart' := hget start'
    have hvalues : values = [] ∨ start = start' := by grind [List.length_pos_iff]
    refine ⟨List.ext_getElem? fun i => ?_, hvalues⟩
    have hi := hget (start' + i)
    grind
  · rintro ⟨rfl, rfl | rfl⟩ <;> rfl

end Entries

end Railgun
