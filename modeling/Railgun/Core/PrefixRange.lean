import Railgun.Core.Types
import Railgun.Lib.Utf8Order

/-!
# Deleting by Prefix

The rows of a wallet are found by a prefix of their keys. The store deletes by a
range of keys, in the order of their bytes, so the end of the range is computed
from the prefix: its last character is raised to the next one there is, and a
character that cannot be raised is dropped.

## Main definitions

* `charFrom`: The next character there is.
* `prefixRangeEnd`, `prefixRangeEndLoop`: The key before which the keys with a prefix
  end.
* `keyLt`, `inKeyRange`: The order of the keys, and the ranges in it.
* `TableRow`, `RetainIn`: The store, which is not modelled any further.
* `removeTablePrefixMatching`: The deletion.
-/

namespace Railgun

/-- The first character from a code point on. There are none between `0xD800` and
    `0xDFFF`. -/
def charFrom (next : Nat) : Option Char :=
  if next ≤ 0x10FFFF then
    if next.isValidChar then some (Char.ofNat next) else charFrom (next + 1)
  else none
termination_by 0x110000 - next

/-- The loop that drops the last character until one can be raised. The characters
    stand in reverse. -/
def prefixRangeEndLoop : List Char → Option (List Char)
  | [] => none
  | last :: rest => match charFrom (last.toNat + 1) with
      | some next => some (next :: rest).reverse
      | none => prefixRangeEndLoop rest

/-- The end of the range of a prefix, or none if it is unbounded. -/
def prefixRangeEnd (pfx : String) : Option String :=
  (prefixRangeEndLoop pfx.toList.reverse).map String.ofList

/-- The order in which the store keeps its keys. -/
def keyLt (a b : String) : Bool := utf8Bytes a.toList < utf8Bytes b.toList

/-- Whether a key lies in a range. Without an end the range is unbounded. -/
def inKeyRange (start : String) (finish : Option String) (key : String) : Bool :=
  !keyLt key start && finish.all (keyLt key)

/-- A key and its value. -/
abbrev TableRow := String × List UInt8

/-- The function of the store that a deletion rests on. It calls a closure on the rows
    of a range, and returns the rows that are left and what the closure has counted. -/
abbrev RetainIn :=
  (table : List TableRow) → (start : String) → (finish : Option String) →
    (retain : Nat → TableRow → Bool × Nat) → (count : Nat) → List TableRow × Nat

/-- Delete the matching rows with a prefix. Returns the rows that are left and the
    number of rows that are gone. -/
def removeTablePrefixMatching (retainIn : RetainIn) (table : List TableRow) (pfx : String)
    (matching : String → Bool) : List TableRow × Nat :=
  retainIn table pfx (prefixRangeEnd pfx)
    (fun removed row => (!matching row.1,
      if matching row.1 then saturatingAdd removed 1 else removed)) 0

end Railgun
