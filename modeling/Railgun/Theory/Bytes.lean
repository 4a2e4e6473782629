import Railgun.Core.Notes

/-!
# Numbers and their Bytes

Words are written with the highest byte first. What is written at a place is read
back from it.

## Theorems

* `fromBeBytes_toBeBytes`, `toBeBytes_fromBeBytes`: Numbers and their bytes.
* `wordAt_append`: A word that stands between other bytes.
* `toBytes_wordAt`: The bytes of a word that is read.
-/

namespace Railgun

open WalletScanArtifactCursor (fromBeBytes)

/-- The bytes read so far are the high digits. -/
theorem foldl_fromBeBytes (value : Nat) (bytes : List UInt8) :
    bytes.foldl (fun value byte => 256 * value + byte.toNat) value =
      value * 256 ^ bytes.length + fromBeBytes bytes := by
  induction bytes generalizing value with
  | nil => exact (Nat.mul_one _).symm
  | cons byte bytes ih =>
    rw [fromBeBytes, List.foldl_cons, List.foldl_cons, ih, ih, List.length_cons]
    ring

theorem fromBeBytes_append (front back : List UInt8) :
    fromBeBytes (front ++ back) = fromBeBytes front * 256 ^ back.length + fromBeBytes back := by
  rw [fromBeBytes, List.foldl_append, foldl_fromBeBytes]
  rfl

theorem fromBeBytes_lt (bytes : List UInt8) : fromBeBytes bytes < 256 ^ bytes.length := by
  induction bytes using List.reverseRecOn with
  | nil => exact Nat.one_pos
  | append_singleton bytes byte ih =>
    have hbyte : fromBeBytes [byte] < 256 := by
      rw [fromBeBytes, List.foldl_cons, List.foldl_nil, Nat.mul_zero, Nat.zero_add]
      exact byte.toNat_lt
    rw [fromBeBytes_append, List.length_append, List.length_singleton, pow_one, pow_succ]
    omega

theorem slice_append {bytes : List UInt8} {start middle stop : Nat} (hstart : start ≤ middle)
    (hstop : middle ≤ stop) :
    slice bytes start stop = slice bytes start middle ++ slice bytes middle stop := by
  have hfront : bytes.take middle = (bytes.take stop).take middle := by
    rw [List.take_take, Nat.min_eq_left hstop]
  have hback : (bytes.take stop).drop middle =
      ((bytes.take stop).drop start).drop (middle - start) := by
    rw [List.drop_drop, Nat.add_sub_cancel' hstart]
  unfold slice
  rw [hfront, hback, @List.drop_take _ start middle, List.take_append_drop]

/-- What was written between two other parts is read back. -/
theorem slice_append_length (before bytes after : List UInt8) :
    slice (before ++ (bytes ++ after)) before.length (before.length + bytes.length) = bytes := by
  rw [slice, ← List.append_assoc, List.take_left' List.length_append, List.drop_left]

theorem length_slice {bytes : List UInt8} {start stop : Nat} (h : stop ≤ bytes.length) :
    (slice bytes start stop).length = stop - start := by
  rw [slice, List.length_drop, List.length_take, Nat.min_eq_left h]

theorem length_toBeBytes (count value : Nat) : (toBeBytes count value).length = count := by
  rw [toBeBytes, List.length_map, List.length_range]

theorem toBeBytes_succ (count value : Nat) : toBeBytes (count + 1) value =
    UInt8.ofNat (value / 256 ^ count) :: toBeBytes count value := by
  simp only [toBeBytes, List.range_succ_eq_map, List.map_cons, List.map_map, Nat.add_sub_cancel,
    Nat.sub_zero]
  refine congrArg _ (List.map_congr_left fun i _ => ?_)
  rw [Function.comp_apply, show count - (i + 1) = count - 1 - i by omega]

theorem drop_toBeBytes (high low value : Nat) :
    (toBeBytes (high + low) value).drop high = toBeBytes low value := by
  induction high with
  | zero => rw [Nat.zero_add, List.drop_zero]
  | succ high ih => rw [Nat.add_right_comm, toBeBytes_succ, List.drop_succ_cons, ih]

theorem fromBeBytes_cons (byte : UInt8) (bytes : List UInt8) :
    fromBeBytes (byte :: bytes) = byte.toNat * 256 ^ bytes.length + fromBeBytes bytes := by
  rw [fromBeBytes, List.foldl_cons, foldl_fromBeBytes, Nat.mul_zero, Nat.zero_add]

/-- Writing a number in too few bytes keeps its low digits. -/
theorem fromBeBytes_toBeBytes (count value : Nat) :
    fromBeBytes (toBeBytes count value) = value % 256 ^ count := by
  induction count with
  | zero => exact (Nat.mod_one value).symm
  | succ count ih =>
    rw [toBeBytes_succ, fromBeBytes_cons, length_toBeBytes, ih, UInt8.toNat_ofNat',
      Nat.mul_comm, Nat.add_comm]
    exact Nat.mod_pow_succ.symm

/-- Equally many bytes are determined by their number. -/
theorem fromBeBytes_injective {a b : List UInt8} (hlength : a.length = b.length)
    (h : fromBeBytes a = fromBeBytes b) : a = b := by
  induction a generalizing b with
  | nil => exact (List.length_eq_zero_iff.mp hlength.symm).symm
  | cons x a ih =>
    cases b with
    | nil => cases hlength
    | cons y b =>
      rw [List.length_cons, List.length_cons, Nat.add_right_cancel_iff] at hlength
      rw [fromBeBytes_cons, fromBeBytes_cons, hlength] at h
      have ha := fromBeBytes_lt a
      rw [hlength] at ha
      have hb := fromBeBytes_lt b
      have hweight : 0 < 256 ^ b.length := Nat.pow_pos (Nat.succ_pos 255)
      -- The head is the quotient by the weight of the rest.
      have hhead := congrArg (· / 256 ^ b.length) h
      have hrest := congrArg (· % 256 ^ b.length) h
      simp only [Nat.mul_comm _ (256 ^ b.length), Nat.mul_add_div hweight, Nat.mul_add_mod,
        Nat.div_eq_of_lt ha, Nat.div_eq_of_lt hb, Nat.mod_eq_of_lt ha, Nat.mod_eq_of_lt hb,
        Nat.add_zero] at hhead hrest
      rw [UInt8.toNat_inj.mp hhead, ih hlength hrest]

theorem toBeBytes_fromBeBytes {count : Nat} {bytes : List UInt8} (h : bytes.length = count) :
    toBeBytes count (fromBeBytes bytes) = bytes := by
  refine fromBeBytes_injective ((length_toBeBytes ..).trans h.symm) ?_
  rw [fromBeBytes_toBeBytes, ← h, Nat.mod_eq_of_lt (fromBeBytes_lt bytes)]

/-- A word that was written is read back at its place. -/
theorem wordAt_append {width count value start stop : Nat} {before after : List UInt8}
    (hvalue : value < 256 ^ count) (hstart : before.length = start)
    (hstop : start + count = stop) :
    wordAt width (before ++ (toBeBytes count value ++ after)) start stop = .ofNat width value := by
  have hslice := slice_append_length before (toBeBytes count value) after
  rw [length_toBeBytes, hstart, hstop] at hslice
  rw [wordAt, hslice, fromBeBytes_toBeBytes, Nat.mod_eq_of_lt hvalue]

theorem toBytes_wordAt {bytes : List UInt8} {start stop : Nat} (hstop : stop ≤ bytes.length)
    (hsize : stop - start = 32) :
    Bytes32.toBytes (wordAt 256 bytes start stop) = slice bytes start stop := by
  have hlength := (length_slice hstop).trans hsize
  have hlt := fromBeBytes_lt (slice bytes start stop)
  rw [hlength] at hlt
  rw [Bytes32.toBytes, wordAt, BitVec.toNat_ofNat,
    Nat.mod_eq_of_lt (hlt.trans_eq (by norm_num)), toBeBytes_fromBeBytes hlength]

end Railgun
