import Mathlib.Data.Char
import Mathlib.Data.List.Basic
import Mathlib.Tactic.SplitIfs

/-!
# The Order of UTF-8

Texts compared byte by byte are in the order of their characters. The encoding of
a character is never the beginning of another one, so the first character that
differs decides, whatever follows.

## Main definitions

* `utf8Bytes`: The bytes of a text.

## Theorems

* `utf8EncodeChar_append_lt`: The smaller of two characters has smaller bytes.
* `utf8Bytes_lt_iff`: The order of the bytes is the order of the characters.
-/

namespace Railgun

/-- The bytes of characters. -/
def utf8Bytes (chars : List Char) : List UInt8 := chars.flatMap String.utf8EncodeChar

theorem utf8EncodeChar_append_lt {c d : Char} (h : c < d) (x y : List UInt8) :
    String.utf8EncodeChar c ++ x < String.utf8EncodeChar d ++ y := by
  have hval : c.val.toNat < d.val.toNat := h
  have hmax : d.val.toNat < 1114112 := by
    have := d.valid
    simp only [UInt32.isValidChar, Nat.isValidChar] at this
    omega
  -- The first byte says how long an encoding is, and longer ones have a larger
  -- first byte. Within one length the bytes are digits, the highest first.
  unfold String.utf8EncodeChar
  dsimp only
  have h4096 : ∀ v, v / 4096 = v / 64 / 64 := fun v => (Nat.div_div_eq_div_mul v 64 64).symm
  have h262144 : ∀ v, v / 262144 = v / 64 / 64 / 64 := fun v => by
    rw [← h4096, Nat.div_div_eq_div_mul]
  split_ifs <;> simp only [List.cons_append, List.cons_lt_cons_iff, UInt8.lt_iff_toNat_lt,
    ← UInt8.toNat_inj, UInt8.toNat_ofNat', h262144, h4096] <;> omega

theorem append_lt_append_iff (l x y : List UInt8) : l ++ x < l ++ y ↔ x < y := by
  induction l with
  | nil => rfl
  | cons a l ih => simp [ih]

theorem utf8Bytes_lt_iff (a b : List Char) : utf8Bytes a < utf8Bytes b ↔ a < b := by
  induction a generalizing b with
  | nil =>
    cases b with
    | nil => simp [utf8Bytes]
    | cons d b =>
      refine iff_of_true ?_ (List.nil_lt_cons ..)
      cases henc : String.utf8EncodeChar d with
      | nil => exact absurd henc String.utf8EncodeChar_ne_nil
      | cons x l => simp [utf8Bytes, henc]
  | cons c a ih =>
    cases b with
    | nil => simp [utf8Bytes]
    | cons d b =>
      simp only [utf8Bytes, List.flatMap_cons, List.cons_lt_cons_iff]
      rcases lt_trichotomy c d with hlt | rfl | hgt
      · exact iff_of_true (utf8EncodeChar_append_lt hlt _ _) (.inl hlt)
      · rw [append_lt_append_iff]
        simpa [utf8Bytes] using ih b
      · refine iff_of_false (List.lt_asymm (utf8EncodeChar_append_lt hgt _ _)) ?_
        rintro (hlt | ⟨rfl, -⟩)
        · exact lt_asymm hlt hgt
        · exact lt_irrefl _ hgt

end Railgun
