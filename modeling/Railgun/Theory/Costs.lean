import Mathlib.Algebra.Order.BigOperators.Group.Finset
import Mathlib.Order.Interval.Finset.Nat
import Railgun.Core.Costs

/-!
# The Bounds the Costs Rest On

The fee is rounded down, so an amount leaves enough in the note exactly if it is
above a quotient, and the smallest such amount is that quotient plus one. The two
overflow checks then refuse the amounts that no note can hold.

The nodes above a run of leaves are a run at every level, and the next level has
at most half as many and one more. Summed over the levels this bounds the hashes
of an insertion from above, and it is never less than the number of hashes that
is expected: as long as the run halves exactly nothing is lost, and the first odd
run gains the one that the top of the tree takes back.

## Main definitions

* `noteValue`: What a shield leaves in the note.
* `touchedNodes`: The nodes that an insertion hashes, over all levels of the tree.
* `runLength`: How many of them there are on a level.

## Theorems

* `le_noteValue_iff`: The amounts that leave enough in the note.
* `lt_bitLen_iff`: When a word has more bits than a note can hold.
* `minShieldAmount_cases`: The quotient plus one, or an overflow if it is too large.
* `minShieldAmount_inverse`: The amount to shield is the smallest one that will do.
* `runLength_succ_le`: A level has at most half as many nodes as the one below, and
  one more.
* `card_level_le`: The nodes of a level are a run.
* `le_worstCaseLoop`, `card_touchedNodes_le`: The loop adds up at least the runs of all
  levels, so the bound holds.
* `add_le_worstCaseLoop`, `expected_le_worstCase`: The loop gains what the expected
  number of hashes adds, so the bound is not below it.
* `tree_expected_le`, `transact_expected_le`, `shield_expected_le`: So it is for the
  estimates of an insertion, of a transaction and of a shield.
* `treeHashes_bound`: The bound holds, and so do the estimates made with it.
-/

namespace Railgun

/-- What the contract leaves in the note when it takes its fee. -/
def noteValue (amount feeBp : Nat) : Nat := amount - amount * feeBp / 10000

/-- The note is left with enough exactly if the amount is above the quotient. -/
theorem le_noteValue_iff {minNet feeBp : Nat} (hpos : 0 < minNet) (hfee : feeBp < 10000)
    (amount : Nat) :
    minNet ≤ noteValue amount feeBp ↔ (minNet - 1) * 10000 / (10000 - feeBp) + 1 ≤ amount := by
  have hquot : (minNet - 1) * 10000 / (10000 - feeBp) < amount ↔
      (minNet - 1) * 10000 < amount * (10000 - feeBp) := Nat.div_lt_iff_lt_mul (by omega)
  have hmul : amount * (10000 - feeBp) = amount * 10000 - amount * feeBp := Nat.mul_sub ..
  unfold noteValue
  omega

/-- A word has more bits than some if and only if it is at least their power of two. -/
theorem lt_bitLen_iff (amount : U256) (bits : Nat) :
    bits < amount.bitLen ↔ 2 ^ bits ≤ amount.toNat := Nat.lt_size

/-- The amount is the quotient plus one. It overflows if that needs more than 120 bits,
    which it does if already the product overflows. -/
theorem minShieldAmount_cases {minNet feeBp : U256} (hpos : minNet ≠ 0)
    (hfee : feeBp.toNat < 10000) :
    (minShieldAmount minNet feeBp = .error .overflow ∧
      2 ^ 120 ≤ (minNet.toNat - 1) * 10000 / (10000 - feeBp.toNat) + 1) ∨
    ∃ amount : U256, minShieldAmount minNet feeBp = .ok amount ∧ amount.toNat < 2 ^ 120 ∧
      amount.toNat = (minNet.toNat - 1) * 10000 / (10000 - feeBp.toNat) + 1 := by
  have hbasis : feeBasisPoints.toNat = 10000 := rfl
  have hnet : 0 < minNet.toNat := Nat.pos_of_ne_zero fun h => hpos (BitVec.eq_of_toNat_eq h)
  have hpred : (minNet - 1).toNat = minNet.toNat - 1 := BitVec.toNat_sub_of_le hnet
  have hlow : ¬ feeBasisPoints ≤ feeBp := by
    rw [BitVec.le_def, hbasis]
    omega
  have hdiff : (feeBasisPoints - feeBp).toNat = 10000 - feeBp.toNat := by
    rw [BitVec.toNat_sub_of_le (BitVec.le_def.mpr (by omega)), hbasis]
  unfold minShieldAmount U256.checkedMul
  rw [if_neg hpos, if_neg hlow, hpred, hbasis]
  by_cases hmul : (minNet.toNat - 1) * 10000 < 2 ^ 256
  · have hscaled : ((minNet - 1) * feeBasisPoints).toNat = (minNet.toNat - 1) * 10000 := by
      rw [BitVec.toNat_mul, hpred, hbasis, Nat.mod_eq_of_lt hmul]
    -- The product is even, so the last step cannot wrap.
    have hquot : (minNet.toNat - 1) * 10000 / (10000 - feeBp.toNat) ≤ (minNet.toNat - 1) * 10000 :=
      Nat.div_le_self ..
    have hamount : ((minNet - 1) * feeBasisPoints / (feeBasisPoints - feeBp) + 1).toNat =
        (minNet.toNat - 1) * 10000 / (10000 - feeBp.toNat) + 1 := by
      rw [BitVec.toNat_add, BitVec.toNat_udiv, hscaled, hdiff, show (1 : U256).toNat = 1 from rfl]
      exact Nat.mod_eq_of_lt (by omega)
    rw [if_pos hmul]
    dsimp only
    by_cases hbits : ((minNet - 1) * feeBasisPoints / (feeBasisPoints - feeBp) + 1).bitLen > 120
    · rw [if_pos hbits]
      rw [gt_iff_lt, lt_bitLen_iff, hamount] at hbits
      exact .inl ⟨rfl, hbits⟩
    · rw [if_neg hbits]
      rw [gt_iff_lt, lt_bitLen_iff, hamount, not_le] at hbits
      exact .inr ⟨_, rfl, by rw [hamount]; exact hbits, hamount⟩
  · rw [if_neg hmul]
    refine .inl ⟨rfl, ?_⟩
    have hdiv : (minNet.toNat - 1) * 10000 / 10000 ≤
        (minNet.toNat - 1) * 10000 / (10000 - feeBp.toNat) :=
      Nat.div_le_div_left (by omega) (by omega)
    omega

/-- The amount is the smallest that leaves `minNet` in the note, and there is none
    if and only if no amount below `2 ^ 120` does. -/
theorem minShieldAmount_inverse (minNet feeBp : U256) (hpos : minNet ≠ 0)
    (hfee : feeBp.toNat < 10000) :
    (∀ amount, minShieldAmount minNet feeBp = .ok amount →
      IsLeast {a | minNet.toNat ≤ noteValue a feeBp.toNat} amount.toNat) ∧
    (minShieldAmount minNet feeBp = .error .overflow ↔
      ∀ a < 2 ^ 120, ¬ minNet.toNat ≤ noteValue a feeBp.toNat) := by
  have hnet : 0 < minNet.toNat := Nat.pos_of_ne_zero fun h => hpos (BitVec.eq_of_toNat_eq h)
  simp only [le_noteValue_iff hnet hfee]
  rcases minShieldAmount_cases hpos hfee with ⟨herror, hlarge⟩ | ⟨amount, hok, hsmall, hamount⟩
  · rw [herror]
    refine ⟨nofun, iff_of_true rfl fun a ha => ?_⟩
    omega
  · rw [hok]
    refine ⟨fun _ h => ?_, iff_of_false (by simp) fun h => h _ hsmall hamount.ge⟩
    cases h
    exact ⟨hamount.ge, fun a ha => hamount.trans_le ha⟩

/-- A fee of a quarter percent. -/
theorem minShieldAmount_inverse_quarter :
    minShieldAmount 9975 25 = .ok 9999 ∧
      IsLeast {a | (9975 : U256).toNat ≤ noteValue a (25 : U256).toNat} (9999 : U256).toNat :=
  have hok : minShieldAmount 9975 25 = .ok 9999 := by decide +kernel
  ⟨hok, (minShieldAmount_inverse 9975 25 (by decide) (by decide)).1 _ hok⟩

/-- The nodes above the leaves, over all levels, with a leaf of the run below
    them. -/
def touchedNodes (start leaves : Nat) : Finset (Nat × Nat) :=
  (Finset.range treeDepth).biUnion fun level =>
    (Finset.Ico start (start + leaves)).image fun leaf => (level + 1, leaf / 2 ^ (level + 1))

/-- The length of the run of nodes above a run of leaves. -/
def runLength (start leaves level : Nat) : Nat :=
  (start + leaves - 1) / 2 ^ level - start / 2 ^ level + 1

/-- A level has at most half as many nodes of the run as the one below, and one more. -/
theorem runLength_succ_le (start leaves level : Nat) :
    runLength start leaves (level + 1) ≤ runLength start leaves level / 2 + 1 := by
  unfold runLength
  rw [pow_succ, ← Nat.div_div_eq_div_mul, ← Nat.div_div_eq_div_mul]
  omega

/-- The nodes of a level above a run of leaves are a run themselves. -/
theorem card_level_le (start leaves level : Nat) :
    ((Finset.Ico start (start + leaves)).image fun leaf => (level, leaf / 2 ^ level)).card ≤
      runLength start leaves level := by
  have hsub : ((Finset.Ico start (start + leaves)).image fun leaf => (level, leaf / 2 ^ level)) ⊆
      (Finset.Icc (start / 2 ^ level) ((start + leaves - 1) / 2 ^ level)).image fun node =>
        (level, node) := by
    intro node hnode
    obtain ⟨leaf, hleaf, rfl⟩ := Finset.mem_image.mp hnode
    rw [Finset.mem_Ico] at hleaf
    refine Finset.mem_image.mpr ⟨leaf / 2 ^ level, Finset.mem_Icc.mpr ⟨?_, ?_⟩, rfl⟩
    · exact Nat.div_le_div_right hleaf.1
    · exact Nat.div_le_div_right (by omega)
  refine (Finset.card_le_card hsub).trans (Finset.card_image_le.trans ?_)
  rw [Nat.card_Icc]
  unfold runLength
  omega

/-- The loop adds up at least the runs of the levels that it passes. -/
theorem le_worstCaseLoop (run : Nat → Nat)
    (hrun : ∀ level, run (level + 1) ≤ run level / 2 + 1) (levels : Nat)
    {first nodes hashes : Nat} (hfirst : run first ≤ nodes) :
    min (hashes + ∑ level ∈ Finset.range levels, run (first + level + 1)) (2 ^ 64 - 1) ≤
      worstCaseLoop levels nodes hashes := by
  induction levels generalizing first nodes hashes with
  | zero => simp [worstCaseLoop]
  | succ levels ih =>
    have hnext : run (first + 1) ≤ nodes / 2 + 1 := (hrun first).trans (by omega)
    refine le_trans ?_ (ih hnext)
    rw [Finset.sum_range_succ']
    simp only [saturatingAdd, Nat.add_zero,
      show ∀ i, first + (i + 1) + 1 = first + 1 + i + 1 by omega]
    omega

/-- An insertion hashes no more nodes than the bound says. -/
theorem card_touchedNodes_le {start leaves : Nat} (hpos : 1 ≤ leaves)
    (hend : start + leaves ≤ 65536) :
    (touchedNodes start leaves).card ≤ worstCaseTreeHashes leaves := by
  have hsum : (touchedNodes start leaves).card ≤
      ∑ level ∈ Finset.range treeDepth, runLength start leaves (0 + level + 1) := by
    refine Finset.card_biUnion_le.trans (Finset.sum_le_sum fun level _ => ?_)
    rw [Nat.zero_add]
    exact card_level_le start leaves (level + 1)
  have hsmall : ∑ level ∈ Finset.range treeDepth, runLength start leaves (0 + level + 1) ≤
      treeDepth * 65536 := by
    refine (Finset.sum_le_card_nsmul _ _ 65536 fun level _ => ?_).trans (by simp)
    have hlength : runLength start leaves (0 + level + 1) ≤ start + leaves - 1 + 1 :=
      Nat.add_le_add_right ((Nat.sub_le ..).trans (Nat.div_le_self ..)) 1
    omega
  have hfirst : runLength start leaves 0 ≤ leaves := by
    simp only [runLength, pow_zero, Nat.div_one]
    omega
  have hloop := @le_worstCaseLoop _ (runLength_succ_le start leaves) treeDepth 0 leaves 0 hfirst
  unfold worstCaseTreeHashes
  rw [if_neg (by omega)]
  rw [show treeDepth * 65536 = 1048576 from rfl] at hsmall
  omega

/-- What the loop has added up and what is left of the run make up the run it
    began with, and more as soon as some run was odd. -/
theorem add_le_worstCaseLoop {run : Nat} (hrun : run < 65536) {levels passed left hashes : Nat}
    (hpassed : levels + passed = treeDepth) (hleft : left * 2 ^ passed < run + 2 ^ passed)
    (hhashes : hashes ≤ passed * 65537)
    (hinv : run + passed = hashes + left ∧ left * 2 ^ passed = run ∨
      run + passed < hashes + left) :
    run + treeDepth ≤ worstCaseLoop levels (left + 1) hashes := by
  induction levels generalizing passed left hashes with
  | zero =>
    rw [Nat.zero_add] at hpassed
    subst hpassed
    rw [show treeDepth = 16 from rfl] at *
    unfold worstCaseLoop
    omega
  | succ levels ih =>
    have hpow : 0 < 2 ^ passed := Nat.two_pow_pos passed
    have hhalf : (left + 1) / 2 * 2 ^ (passed + 1) = (left + 1) / 2 * 2 * 2 ^ passed := by
      rw [pow_succ, Nat.mul_comm (2 ^ passed) 2, Nat.mul_assoc]
    have hround : (left + 1) / 2 * 2 * 2 ^ passed ≤ left * 2 ^ passed + 2 ^ passed := by
      rw [← Nat.succ_mul]
      exact Nat.mul_le_mul_right _ (by omega)
    have hsmall : left < 65536 := by
      by_contra hge
      have := Nat.mul_le_mul_right (2 ^ passed) (Nat.le_of_not_lt hge)
      omega
    have hpassed' : passed < 16 := by
      rw [show treeDepth = 16 from rfl] at hpassed
      omega
    have hadd : saturatingAdd hashes ((left + 1) / 2 + 1) = hashes + ((left + 1) / 2 + 1) :=
      Nat.min_eq_left (by omega)
    unfold worstCaseLoop
    refine @ih (passed + 1) _ _ (by omega) (by omega) (by omega) ?_
    · rw [hhalf]
      -- An even run is halved exactly, an odd one gains a node.
      rcases hinv with ⟨hsum, hexact⟩ | hmore
      · by_cases heven : (left + 1) / 2 * 2 = left
        · rw [heven]
          exact .inl ⟨by omega, hexact⟩
        · exact .inr (by omega)
      · exact .inr (by omega)

/-- The hashes expected for an insertion are no more than the bound. -/
theorem expected_le_worstCase {leaves : Nat} (hle : leaves ≤ 65536) :
    expectedTreeHashes leaves ≤ worstCaseTreeHashes leaves := by
  unfold expectedTreeHashes worstCaseTreeHashes
  split_ifs
  · exact Nat.zero_le 0
  · have hloop := @add_le_worstCaseLoop (leaves - 1) (by omega) treeDepth 0 (leaves - 1) 0 rfl
      (by omega) (Nat.zero_le _) (.inl ⟨by omega, Nat.mul_one _⟩)
    rw [show leaves - 1 + 1 = leaves by omega] at hloop
    refine (Nat.min_le_left ..).trans (le_trans ?_ hloop)
    rw [show treeDepth = 16 from rfl]
    omega

/-- A sum that saturates is monotone. -/
theorem saturatingAdd_le_saturatingAdd {a b c : Nat} (h : b ≤ c) :
    saturatingAdd a b ≤ saturatingAdd a c := by
  unfold saturatingAdd
  omega

namespace RailgunGasModel

variable (model : RailgunGasModel)

/-- The gas expected for an insertion is no more than its upper bound. -/
theorem tree_expected_le {leaves : Nat} (hle : leaves ≤ 65536) :
    model.tree .expected leaves ≤ model.tree .upperBound leaves := by
  unfold tree
  split_ifs
  · exact Nat.le_refl 0
  · refine (Nat.sub_le ..).trans (saturatingAdd_le_saturatingAdd ?_)
    exact min_le_min_right _ (Nat.mul_le_mul_left _ (expected_le_worstCase hle))

/-- So is the gas expected for a transaction. -/
theorem transact_expected_le {shape : TransactGasShape} (hle : shape.insertedLeaves ≤ 65536) :
    model.transact .expected shape ≤ model.transact .upperBound shape := by
  unfold transact
  split_ifs
  · exact Nat.le_refl 0
  · exact saturatingAdd_le_saturatingAdd (model.tree_expected_le hle)

/-- So is the gas expected for a shield. -/
theorem shield_expected_le {requests : Nat} (hle : requests ≤ 65536) :
    model.shield .expected requests ≤ model.shield .upperBound requests := by
  unfold shield
  split_ifs
  · exact Nat.le_refl 0
  · exact saturatingAdd_le_saturatingAdd (model.tree_expected_le hle)

end RailgunGasModel

/-- An insertion takes no more hashes than the bound, and with it the upper
    estimates of every model are above the expected ones. -/
theorem treeHashes_bound :
    (∀ start leaves, 1 ≤ leaves → start + leaves ≤ 65536 →
      (touchedNodes start leaves).card ≤ worstCaseTreeHashes leaves) ∧
    ∀ model : RailgunGasModel,
      (∀ shape : TransactGasShape, shape.insertedLeaves ≤ 65536 →
        model.transact .expected shape ≤ model.transact .upperBound shape) ∧
      ∀ requests ≤ 65536, model.shield .expected requests ≤ model.shield .upperBound requests :=
  ⟨fun _ _ hpos hend => card_touchedNodes_le hpos hend, fun model =>
    ⟨fun _ hle => model.transact_expected_le hle, fun _ hle => model.shield_expected_le hle⟩⟩

/-- The last two leaves of a tree. -/
theorem treeHashes_bound_two :
    (touchedNodes 65534 2).card ≤ 32 ∧
      (RailgunGasModel.forChain 1).shield .expected 2 ≤
        (RailgunGasModel.forChain 1).shield .upperBound 2 :=
  ⟨treeHashes_bound.1 65534 2 (by decide) (by decide),
    (treeHashes_bound.2 (RailgunGasModel.forChain 1)).2 2 (by decide)⟩

end Railgun
