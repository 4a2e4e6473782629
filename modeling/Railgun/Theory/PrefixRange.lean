import Railgun.Core.PrefixRange

/-!
# The Range of a Prefix

The keys of the range are the keys with the prefix. The proof follows the prefix
from its first character on: the end of the range begins with the same character
as long as the rest of the prefix has an end, and otherwise is the next character
alone. The first character in which a key differs from the prefix then decides
both whether it is in the range and whether it has the prefix.

What is removed then rests on what the store promises of the function that goes
through a range, and on nothing else about it.

## Main definitions

* `RetainIn.Documented`: What the store promises.
* `scanRows`: A store that keeps the promise.

## Theorems

* `charFrom_eq_some`, `charFrom_eq_none`: The next character is the least one.
* `prefixRangeEndLoop_concat`: The end of the range, from the first character on.
* `lt_rangeEnd_iff`: The range for texts as lists of characters.
* `inKeyRange_iff`: The range for keys.
* `foldl_saturatingAdd`: The rows that are counted.
* `removePrefix_exact`: Exactly the matching rows with the prefix are deleted.
* `scanRows_documented`: The promise can be kept.
-/

namespace Railgun

theorem charFrom_eq_some {next : Nat} {c : Char} (h : charFrom next = some c) :
    next ≤ c.toNat ∧ ∀ d : Char, next ≤ d.toNat → c ≤ d := by
  fun_induction charFrom next with
  | case1 next _ hvalid =>
    cases h
    have hnat : (Char.ofNat next).toNat = next := congrArg Char.toNat (dif_pos hvalid)
    exact ⟨hnat.ge, fun d hd => hnat.trans_le hd⟩
  | case2 next _ hvalid ih =>
    obtain ⟨hle, hleast⟩ := ih h
    refine ⟨by omega, fun d hd => hleast d ?_⟩
    have hne : next ≠ d.toNat := by
      rintro rfl
      exact hvalid d.valid
    omega
  | case3 => cases h

theorem charFrom_eq_none {next : Nat} (h : charFrom next = none) (d : Char) : d.toNat < next := by
  fun_induction charFrom next with
  | case1 => cases h
  | case2 next _ hvalid ih =>
    have hne : d.toNat ≠ next := by
      rintro rfl
      exact hvalid d.valid
    have := ih h
    omega
  | case3 next hlarge =>
    have hvalid : d.toNat.isValidChar := d.valid
    unfold Nat.isValidChar at hvalid
    omega

theorem prefixRangeEndLoop_concat (rest : List Char) (c : Char) :
    prefixRangeEndLoop (rest ++ [c]) = match prefixRangeEndLoop rest with
      | some finish => some (c :: finish)
      | none => (charFrom (c.toNat + 1)).map fun next => [next] := by
  induction rest with
  | nil =>
    simp only [List.nil_append, prefixRangeEndLoop]
    cases charFrom (c.toNat + 1) <;> rfl
  | cons last rest ih =>
    simp only [List.cons_append, prefixRangeEndLoop]
    cases charFrom (last.toNat + 1) with
    | some next => simp
    | none => exact ih

theorem lt_rangeEnd_iff (pfx key : List Char) :
    (¬ key < pfx ∧ ∀ finish, prefixRangeEndLoop pfx.reverse = some finish → key < finish) ↔
      pfx <+: key := by
  induction pfx generalizing key with
  | nil => simp [prefixRangeEndLoop]
  | cons c pfx ih =>
    rw [List.reverse_cons, prefixRangeEndLoop_concat]
    cases key with
    | nil => simp
    | cons d key =>
      rw [List.cons_prefix_cons, ← ih key, List.cons_lt_cons_iff]
      rcases lt_trichotomy d c with hlt | rfl | hgt
      · simp [hlt, hlt.ne']
      · cases prefixRangeEndLoop pfx.reverse with
        | some finish => simp
        | none =>
          cases hnext : charFrom (d.toNat + 1) with
          | none => simp
          | some next =>
            have hlt : d < next := (charFrom_eq_some hnext).1
            simp [List.cons_lt_cons_iff, hlt]
      · -- The key is above the prefix, and so it is not below the end.
        refine iff_of_false (fun ⟨_, hend⟩ => ?_) fun ⟨heq, _⟩ => hgt.ne heq
        cases hrest : prefixRangeEndLoop pfx.reverse with
        | some finish =>
          rw [hrest] at hend
          have := hend _ rfl
          rw [List.cons_lt_cons_iff] at this
          rcases this with hlt | ⟨heq, _⟩
          · exact lt_asymm hlt hgt
          · exact hgt.ne' heq
        | none =>
          rw [hrest] at hend
          cases hnext : charFrom (c.toNat + 1) with
          | none => exact absurd (charFrom_eq_none hnext d) (Nat.not_lt.mpr hgt)
          | some next =>
            rw [hnext] at hend
            have hle : next ≤ d := (charFrom_eq_some hnext).2 d hgt
            have := hend _ rfl
            simp [List.cons_lt_cons_iff, not_lt.mpr hle] at this

theorem inKeyRange_iff (pfx key : String) :
    inKeyRange pfx (prefixRangeEnd pfx) key ↔ pfx.toList <+: key.toList := by
  rw [← lt_rangeEnd_iff]
  unfold inKeyRange prefixRangeEnd keyLt
  cases prefixRangeEndLoop pfx.toList.reverse <;> simp [utf8Bytes_lt_iff]

/-- What the store promises. The closure is called once for each row of the range, a row
    that it refuses is removed, and all other rows stay. -/
def RetainIn.Documented (retainIn : RetainIn) : Prop :=
  ∀ table start finish retain count (keep : TableRow → Bool),
    (∀ count row, (retain count row).1 = keep row) →
    (retainIn table start finish retain count).1 =
        table.filter (fun row => !inKeyRange start finish row.1 || keep row) ∧
      ∃ visited : List TableRow,
        visited.Perm (table.filter fun row => inKeyRange start finish row.1) ∧
        (retainIn table start finish retain count).2 =
          visited.foldl (fun count row => (retain count row).2) count

/-- A counter that saturates has counted the rows, up to its largest value. -/
theorem foldl_saturatingAdd (matching : String → Bool) (rows : List TableRow) {count : Nat}
    (hcount : count < 2 ^ 64) :
    rows.foldl (fun count row => if matching row.1 then saturatingAdd count 1 else count) count =
      min (count + rows.countP fun row => matching row.1) (2 ^ 64 - 1) := by
  induction rows generalizing count with
  | nil => exact (Nat.min_eq_left (Nat.le_sub_one_of_lt hcount)).symm
  | cons row rows ih =>
    rw [List.foldl_cons, List.countP_cons]
    cases matching row.1 with
    | true =>
      rw [if_pos rfl, if_pos rfl, ih (by unfold saturatingAdd; omega), saturatingAdd]
      omega
    | false =>
      rw [if_neg Bool.false_ne_true, ih hcount]
      rfl

/-- The range of a prefix has exactly the keys with that prefix, so that exactly
    the matching rows with the prefix are removed. -/
theorem removePrefix_exact (retainIn : RetainIn) (hretainIn : retainIn.Documented)
    (pfx : String) :
    (∀ key, inKeyRange pfx (prefixRangeEnd pfx) key ↔ pfx.toList <+: key.toList) ∧
    ∀ table matching,
      (removeTablePrefixMatching retainIn table pfx matching).1 =
        table.filter (fun row => !(decide (pfx.toList <+: row.1.toList) && matching row.1)) ∧
      (removeTablePrefixMatching retainIn table pfx matching).2 =
        min (table.countP fun row => decide (pfx.toList <+: row.1.toList) && matching row.1)
          (2 ^ 64 - 1) := by
  have hrange : ∀ key, inKeyRange pfx (prefixRangeEnd pfx) key =
      decide (pfx.toList <+: key.toList) := fun key => by
    rw [Bool.eq_iff_iff, inKeyRange_iff, decide_eq_true_iff]
  refine ⟨inKeyRange_iff pfx, fun table matching => ?_⟩
  obtain ⟨hkept, visited, hvisited, hcount⟩ := hretainIn table pfx (prefixRangeEnd pfx)
    (fun removed row => (!matching row.1,
      if matching row.1 then saturatingAdd removed 1 else removed)) 0
    (fun row => !matching row.1) fun _ _ => rfl
  constructor
  · simp only [removeTablePrefixMatching, hkept, hrange, Bool.not_and]
  · rw [removeTablePrefixMatching, hcount, foldl_saturatingAdd matching visited (by decide),
      hvisited.countP_eq, List.countP_filter, Nat.zero_add]
    simp only [hrange, Bool.and_comm]

/-- A store that goes through all rows. -/
def scanRows : RetainIn
  | [], _, _, _, count => ([], count)
  | row :: table, start, finish, retain, count =>
    if inKeyRange start finish row.1 then
      let (keep, count) := retain count row
      let (kept, count) := scanRows table start finish retain count
      (if keep then row :: kept else kept, count)
    else
      let (kept, count) := scanRows table start finish retain count
      (row :: kept, count)

theorem scanRows_documented : RetainIn.Documented scanRows := by
  intro table start finish retain count keep hkeep
  induction table generalizing count with
  | nil => exact ⟨rfl, [], .nil, rfl⟩
  | cons row table ih =>
    rw [scanRows, List.filter_cons, List.filter_cons]
    cases inKeyRange start finish row.1 with
    | true =>
      obtain ⟨hkept, visited, hvisited, hcount⟩ := ih (retain count row).2
      refine ⟨?_, row :: visited, hvisited.cons row, hcount⟩
      simp [hkept, hkeep]
    | false =>
      obtain ⟨hkept, visited, hvisited, hcount⟩ := ih count
      refine ⟨?_, visited, hvisited, hcount⟩
      simp [hkept]

/-- Of two rows with the prefix and one without, the matching one with the prefix is
    removed. -/
theorem removePrefix_exact_scanRows :
    removeTablePrefixMatching scanRows [("a:1", []), ("a:2", []), ("b:1", [])] "a:"
        (fun key => key != "a:2") = ([("a:2", []), ("b:1", [])], 1) := by
  obtain ⟨hkept, hcount⟩ := (removePrefix_exact scanRows scanRows_documented "a:").2
    [("a:1", []), ("a:2", []), ("b:1", [])] (fun key => key != "a:2")
  exact Prod.ext (hkept.trans (by decide +kernel)) (hcount.trans (by decide +kernel))

end Railgun
