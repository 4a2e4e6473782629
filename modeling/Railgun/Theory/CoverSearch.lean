import Railgun.Theory.SearchTop
import Railgun.Theory.SelectionOrder

/-!
# What a Covering Search Finds

A covering search walks over the sets of a fixed number of notes. It leaves out
sets that cannot cover the amount, sets that are worth no less than the best found,
and, of notes with the same value, all but the first. Where change would not fit
the signature the amount has to be met exactly and nothing is left out for its
total, so the best is the one with the smallest positions; elsewhere it is one with
the smallest total.

A set is covered by a state if the best found is no worse. What is left out is
covered when it is left out, and what is covered stays so, because the best only
gets better. With at most thirteen notes the visits suffice for every set.

## Main definitions

* `SelectionSearch.Small`: A search over few notes.
* `SelectionSearch.Covered`: The best found is no worse than a set.

## Theorems

* `SelectionSearch.covered_of_sibling`: A note of the same value before another
  covers it.
* `SelectionSearch.search_covers`: A call covers all its sets.
* `SelectionSearch.run_covers`: A whole search covers all sets, within its visits.
-/

namespace Railgun

/-- What the order of covers puts first, of two selections that cover the amount:
    fewer inputs, then no larger a total, then no larger positions. -/
theorem amountOrder_le {amount : U256} {a b : UtxoSelection}
    (h : (selectionAmountOrder amount a b).isLE = true) (ha : amount ≤ a.total)
    (hb : amount ≤ b.total) :
    a.utxos.length ≤ b.utxos.length ∧ (a.utxos.length = b.utxos.length →
      a.total.toNat ≤ b.total.toNat ∧ (a.total = b.total → a.positionKey ≤ b.positionKey)) := by
  rw [selectionAmountOrder, compareLex, Ordering.isLE_then_iff_and, compareOn] at h
  refine ⟨Nat.isLE_compare.mp h.1, fun hcount => ?_⟩
  have hrest := h.2.resolve_left (by
    rw [hcount, compare_lt_iff_lt]
    exact Nat.lt_irrefl _)
  rw [compareLex, Ordering.isLE_then_iff_and, compareOn] at hrest
  have hexcess := (compare_isLE_iff _ _).mp hrest.1
  rw [BitVec.le_def, BitVec.toNat_sub_of_le ha, BitVec.toNat_sub_of_le hb] at hexcess
  rw [BitVec.le_def] at ha hb
  refine ⟨by omega, fun htotal => not_lt.mp fun hlt => ?_⟩
  have hkey := hrest.2.resolve_left (by
    have hself : compare (b.total - amount) (b.total - amount) = .eq := Std.ReflCmp.compare_self
    rw [htotal, hself]
    decide)
  have hswap : compareOn UtxoSelection.positionKey a b = .gt :=
    Std.OrientedCmp.gt_iff_lt.mpr ((positionKey_test_iff b a).mp (decide_eq_true hlt))
  rw [hswap] at hkey
  cases hkey

namespace SelectionSearch

variable {s : SelectionSearch} {st : State} {remaining start index : Nat} {total : U256}
  {selected : List Nat} {notes : List Utxo}

/-- Few candidates in order, whose sum does not wrap, for a signature that fits. -/
structure Small (s : SelectionSearch) : Prop where
  ordered : s.candidates.Pairwise fun a b => (searchOrder a b).isLE = true
  bounded : valueSum s.candidates < 2 ^ 256
  few : s.candidates.length ≤ maxCircuitInputs
  signature : 2 + s.targetCount + s.baseOutputCount ≤ maxSignatureInputs

theorem Small.descending (hs : s.Small) : Descending s.candidates := by
  refine hs.ordered.imp fun h => ?_
  rw [searchOrder, compareLex, Ordering.isLE_then_iff_and] at h
  exact (compare_isLE_iff _ _).mp h.1

/-- A set of notes the search may return: as many as wanted, and enough for the
    amount, or exactly enough if change would not fit. -/
structure Acceptable (s : SelectionSearch) (notes : List Utxo) : Prop where
  count : notes.length = s.targetCount
  covers : s.amount.toNat ≤ valueSum notes
  exact : s.exactOnly = true → valueSum notes = s.amount.toNat

/-- No worse than another: by positions if the amount has to be met exactly, by
    total otherwise. -/
def NoWorse (s : SelectionSearch) (a b : UtxoSelection) : Prop :=
  (s.exactOnly = true → a.positionKey ≤ b.positionKey) ∧
    (s.exactOnly = false → a.total.toNat ≤ b.total.toNat)

theorem NoWorse.trans {a b c : UtxoSelection} (hab : s.NoWorse a b) (hbc : s.NoWorse b c) :
    s.NoWorse a c :=
  ⟨fun h => le_trans (hab.1 h) (hbc.1 h), fun h => le_trans (hab.2 h) (hbc.2 h)⟩

/-- The best so far is no worse than these notes. -/
def Covered (s : SelectionSearch) (st : State) (notes : List Utxo) : Prop :=
  ∃ b ∈ st.best, s.NoWorse b (selectionOf notes)

theorem Valid.count {a : UtxoSelection} (h : s.Valid a) : a.utxos.length = s.targetCount := by
  obtain ⟨chosen, -, hlen, hperm⟩ := h.chosen
  rw [hperm.length_eq, hlen]

theorem Valid.exact {a : UtxoSelection} (h : s.Valid a) (hexact : s.exactOnly = true) :
    a.total = s.amount := by
  have hover := of_decide_eq_true hexact
  have hsig := h.signature
  have hcovers := h.covers
  refine BitVec.eq_of_toNat_eq (Nat.le_antisymm (Nat.not_lt.mp fun hlt => ?_) hcovers)
  rw [if_pos (show s.amount < a.total from hlt)] at hsig
  omega

theorem noWorse_of_order {a b : UtxoSelection} (ha : s.Valid a) (hb : s.Valid b)
    (h : (selectionAmountOrder s.amount a b).isLE = true) : s.NoWorse a b := by
  obtain ⟨htotal, hkey⟩ := (amountOrder_le h ha.covers hb.covers).2 (ha.count.trans hb.count.symm)
  exact ⟨fun hexact => hkey ((ha.exact hexact).trans (hb.exact hexact).symm), fun _ => htotal⟩

/-- Recording an index list keeps what is covered, and covers the list itself if it
    is acceptable. -/
theorem recordIfValid_covered (hp : s.Path 0 start total selected)
    (hst : ∀ b ∈ st.best, s.Valid b) :
    (∀ notes, s.Covered st notes → s.Covered (s.recordIfValid total selected st) notes) ∧
      (s.Small → s.Acceptable (pick s.candidates selected) →
        s.Covered (s.recordIfValid total selected st) (pick s.candidates selected)) := by
  have hvalidBest := recordIfValid_valid hp hst
  rcases s.recordIfValid_cases total selected st with ⟨hrejected, h⟩ | ⟨haccepts, h⟩
  · rw [h]
    refine ⟨fun _ h => h, fun hs hacceptable => absurd ?_ hrejected⟩
    have htotal := hp.toNat_total hs.bounded
    exact accepts_of_covers hs.signature (htotal ▸ hacceptable.covers)
      fun hexact => htotal.trans (hacceptable.exact hexact)
  · have hvalid := valid_of_path hp haccepts
    rw [hp.total] at hvalid
    rw [h] at hvalidBest ⊢
    dsimp only at hvalidBest
    rw [hp.total] at hvalidBest ⊢
    -- The kept best is no worse than the old one and the new one.
    have hkept : ∀ c, st.best = some c ∨ some (selectionOf (pick s.candidates selected)) = some c →
        s.Valid c → ∃ k ∈ keepBest (fun selection best =>
          selection.isBetterForAmountThan best s.amount) st.best
          (some (selectionOf (pick s.candidates selected))), s.NoWorse k c := by
      intro c hc hvalidC
      obtain ⟨k, hk, hle⟩ := keepBest_order _ (fun b a => isBetterForAmountThan_iff b a s.amount) hc
      exact ⟨k, hk, noWorse_of_order (hvalidBest k hk) hvalidC hle⟩
    refine ⟨?_, fun _ _ => hkept _ (Or.inr rfl) hvalid⟩
    rintro notes ⟨c, hc, hno⟩
    obtain ⟨k, hk, hkc⟩ := hkept c (Or.inl hc) (hst c hc)
    exact ⟨k, hk, hkc.trans hno⟩

theorem recordIfValid_visitsLeft :
    (s.recordIfValid total selected st).visitsLeft = st.visitsLeft := by
  rcases s.recordIfValid_cases total selected st with ⟨-, h⟩ | ⟨-, h⟩
  · rw [h]
  · rw [h]

theorem search_valid (hp : s.Path remaining start total selected)
    (hst : ∀ b ∈ st.best, s.Valid b) :
    ∀ b ∈ (s.search remaining start total selected st).best, s.Valid b :=
  search_preserves s (fun st => ∀ b ∈ st.best, s.Valid b) (fun _ h => h)
    (fun _ _ _ _ hp h => recordIfValid_valid hp h) _ _ _ _ st hp hst

theorem search_covered (hp : s.Path remaining start total selected)
    (hst : ∀ b ∈ st.best, s.Valid b) (h : s.Covered st notes) :
    s.Covered (s.search remaining start total selected st) notes :=
  (search_preserves s (fun st => (∀ b ∈ st.best, s.Valid b) ∧ s.Covered st notes) (fun _ h => h)
    (fun _ _ _ _ hp h => ⟨recordIfValid_valid hp h.1, (recordIfValid_covered hp h.1).1 notes h.2⟩)
    _ _ _ _ st hp ⟨hst, h⟩).2

/-- A best that is no larger than a bound covers what is worth at least the bound. -/
theorem covered_of_best (hs : s.Small) (hsub : notes.Sublist s.candidates) {bound : U256}
    (hbound : bound.toNat ≤ valueSum notes)
    (h : ¬ s.exactOnly = true ∧ st.best.any (fun best => best.total ≤ bound) = true) :
    s.Covered st notes := by
  obtain ⟨b, hb, hle⟩ := (Option.any_eq_true _ _).mp h.2
  refine ⟨b, hb, fun hyes => absurd hyes h.1, fun _ => ?_⟩
  rw [selectionOf, toNat_noteTotal_sublist hs.bounded hsub]
  exact le_trans (of_decide_eq_true hle) hbound

theorem Acceptable.replace {before after : List Utxo} {note note' : Utxo}
    (hvalue : note.note.value = note'.note.value) (h : s.Acceptable (before ++ note :: after)) :
    s.Acceptable (before ++ note' :: after) := by
  obtain ⟨hcount, hcovers, hexact⟩ := h
  simp only [valueSum_append, valueSum_cons, List.length_append, List.length_cons, hvalue]
    at hcount hcovers hexact
  constructor <;> simpa only [valueSum_append, valueSum_cons, List.length_append, List.length_cons]

/-- A note of the same value before another covers it. -/
theorem covered_of_sibling (hs : s.Small) {before after : List Utxo} {prev : Nat}
    (hlt : prev + 1 < s.candidates.length)
    (hvalue : s.candidates[prev + 1].note.value = s.candidates[prev].note.value)
    (h : s.Covered st (before ++ s.candidates[prev] :: after)) :
    s.Covered st (before ++ s.candidates[prev + 1] :: after) := by
  obtain ⟨b, hb, hno⟩ := h
  refine ⟨b, hb, hno.trans ⟨fun _ => positionKey_replace_le ?_, fun _ => ?_⟩⟩
  · -- Equal values are ordered by position.
    have horder := List.pairwise_iff_getElem.mp hs.ordered prev (prev + 1) (by omega) hlt (by omega)
    have htie : compare s.candidates[prev + 1].note.value s.candidates[prev].note.value = .eq := by
      rw [hvalue]
      exact Std.ReflCmp.compare_self
    rw [searchOrder, compareLex, htie, Ordering.eq_then] at horder
    exact (noteKey_le_iff _ _).mp horder
  · rw [selectionOf, selectionOf, noteTotal_append, noteTotal_append, noteTotal_cons,
      noteTotal_cons, hvalue]

/-- The sets of a call: so many more notes from `start` on. -/
def CoversFrom (s : SelectionSearch) (remaining start : Nat) (notes : List Utxo) (st : State) :
    Prop :=
  ∀ chosen, chosen.Sublist (s.candidates.drop start) → chosen.length = remaining →
    s.Acceptable (notes ++ chosen) → s.Covered st (notes ++ chosen)

/-- The sets of a level that start with one note. -/
def CoversAt (s : SelectionSearch) (remaining index : Nat) (notes : List Utxo) (st : State) :
    Prop :=
  ∀ note ∈ s.candidates[index]?, s.CoversFrom remaining (index + 1) (notes ++ [note]) st

theorem coversAt_iff (hlt : index < s.candidates.length) :
    s.CoversAt remaining index (pick s.candidates selected) st
      ↔ s.CoversFrom remaining (index + 1) (pick s.candidates (selected ++ [index])) st := by
  simp only [CoversAt, List.getElem?_eq_getElem hlt, Option.mem_some, forall_eq',
    pick_append_singleton hlt]

/-- The sets of a level that start with a note before `index`. -/
def CoversBefore (s : SelectionSearch) (remaining start index : Nat) (notes : List Utxo)
    (st : State) : Prop :=
  ∀ earlier, start ≤ earlier → earlier < index → s.CoversAt remaining earlier notes st

theorem CoversBefore.succ (h : s.CoversBefore remaining start index notes st)
    (hhere : s.CoversAt remaining index notes st) :
    s.CoversBefore remaining start (index + 1) notes st := by
  intro earlier hge hle
  rcases Nat.lt_succ_iff_lt_or_eq.mp hle with hlt | rfl
  · exact h earlier hge hlt
  · exact hhere

/-- A set of a call starts with one of the notes that leave enough behind them. -/
theorem CoversBefore.coversFrom (h : s.CoversBefore remaining start index notes st)
    (hend : s.candidates.length ≤ index + remaining) :
    s.CoversFrom (remaining + 1) start notes st := by
  intro chosen hsub hlen hacceptable
  obtain ⟨note, rest, rfl⟩ := List.exists_cons_of_length_eq_add_one hlen
  obtain ⟨offset, hget, hrest⟩ := exists_of_cons_sublist hsub
  rw [List.getElem?_drop] at hget
  rw [List.drop_drop, ← Nat.add_assoc] at hrest
  rw [List.length_cons, Nat.add_right_cancel_iff] at hlen
  rw [List.append_cons] at hacceptable ⊢
  have hroom := hrest.length_le
  rw [List.length_drop] at hroom
  have hlt : start + offset < s.candidates.length := (List.getElem?_eq_some_iff.mp hget).1
  exact h (start + offset) (Nat.le_add_right _ _) (by omega) note hget rest hrest hlen hacceptable

/-- A note is left out if the one before it has the same value. -/
theorem CoversBefore.sibling (hs : s.Small) (hlt : index < s.candidates.length)
    (hstart : start < index)
    (hvalue : valueAt s.candidates index = valueAt s.candidates (index - 1))
    (h : s.CoversBefore remaining start index (pick s.candidates selected) st) :
    s.CoversAt remaining index (pick s.candidates selected) st := by
  obtain ⟨prev, rfl⟩ : ∃ prev, index = prev + 1 := ⟨index - 1, by omega⟩
  have hprev : prev < s.candidates.length := by omega
  rw [Nat.add_sub_cancel, valueAt_eq hlt, valueAt_eq hprev] at hvalue
  rw [coversAt_iff hlt]
  intro rest hrest hlen hacceptable
  have hcovered := (coversAt_iff hprev).mp (h prev (by omega) (by omega)) rest
    (hrest.trans (List.drop_sublist_drop_left _ (by omega))) hlen
  rw [pick_append_singleton hprev, ← List.append_cons] at hcovered
  rw [pick_append_singleton hlt, ← List.append_cons] at hacceptable ⊢
  exact covered_of_sibling hs hlt hvalue (hcovered (hacceptable.replace hvalue))

/-- What is shown of a call: it covers its sets, and spends at most a visit for
    each. -/
def CallCovers (s : SelectionSearch) (remaining : Nat) : Prop :=
  ∀ start total selected st, s.Path remaining start total selected →
    (∀ b ∈ st.best, s.Valid b) → 2 ^ (s.candidates.length - start) ≤ st.visitsLeft + 1 →
    s.CoversFrom remaining start (pick s.candidates selected)
      (s.search remaining start total selected st) ∧
    st.visitsLeft + 1 ≤ (s.search remaining start total selected st).visitsLeft
      + 2 ^ (s.candidates.length - start)

/-- One round of a level covers the sets that start with its note. -/
theorem searchLoop_round (hs : s.Small) (hp : s.Path (remaining + 1) start total selected)
    (hdescend : s.CallCovers remaining) (hstart : start ≤ index)
    (hlt : index < s.candidates.length) (hst : ∀ b ∈ st.best, s.Valid b)
    (hdone : s.CoversBefore remaining start index (pick s.candidates selected) st)
    (hvisits : 2 * 2 ^ (s.candidates.length - (index + 1)) ≤ st.visitsLeft + 1)
    (rest : List Nat) :
    ∃ st', s.searchLoop start total selected (s.search remaining) (index :: rest) st
        = s.searchLoop start total selected (s.search remaining) rest st' ∧
      (∀ b ∈ st'.best, s.Valid b) ∧
      s.CoversBefore remaining start (index + 1) (pick s.candidates selected) st' ∧
      st.visitsLeft ≤ st'.visitsLeft + 2 ^ (s.candidates.length - (index + 1)) := by
  have hpos := Nat.two_pow_pos (s.candidates.length - (index + 1))
  have hstep := hp.step hstart hlt
  rw [searchLoop]
  dsimp only
  split_ifs with hsibling hempty hover hbest
  · -- An equal note before this one has covered the same choices.
    exact ⟨st, rfl, hst, hdone.succ (hdone.sibling hs hlt hsibling.1 hsibling.2), by omega⟩
  · omega
  · refine ⟨_, rfl, hst, CoversBefore.succ hdone ((coversAt_iff hlt).mpr ?_), by dsimp only; omega⟩
    intro chosen hsub hlen hacceptable
    have hmore := (hstep.bounds hs.descending hs.bounded hsub hlen).1
    have hexact := hacceptable.exact hover.1
    have hlarge := hover.2
    rw [BitVec.lt_def] at hlarge
    omega
  · refine ⟨_, rfl, hst, CoversBefore.succ hdone ((coversAt_iff hlt).mpr ?_), by dsimp only; omega⟩
    intro chosen hsub hlen _
    exact covered_of_best hs (sublist_of_split hstep.sublist hsub)
      (hstep.bounds hs.descending hs.bounded hsub hlen).1 hbest
  · have hvisited : ∀ b ∈ (⟨st.best, st.visitsLeft - 1⟩ : State).best, s.Valid b := hst
    obtain ⟨hcovers, hleft⟩ := hdescend _ _ _ _ hstep hvisited (by dsimp only; omega)
    dsimp only at hleft
    refine ⟨_, rfl, search_valid hstep hvisited, CoversBefore.succ ?_
      ((coversAt_iff hlt).mpr hcovers), by omega⟩
    intro earlier hge hle note hmem chosen hsub hlen hacceptable
    exact search_covered hstep hvisited
      (hdone earlier hge hle note hmem chosen hsub hlen hacceptable)

theorem searchLoop_covers (hs : s.Small) (hp : s.Path (remaining + 1) start total selected)
    (hdescend : s.CallCovers remaining) (count : Nat) (hstart : start ≤ index)
    (hend : index + count + remaining = s.candidates.length) (hst : ∀ b ∈ st.best, s.Valid b)
    (hdone : s.CoversBefore remaining start index (pick s.candidates selected) st)
    (hvisits : 2 ^ (s.candidates.length - index) ≤ st.visitsLeft + 1) :
    s.CoversBefore remaining start (index + count) (pick s.candidates selected)
        (s.searchLoop start total selected (s.search remaining) (List.range' index count) st) ∧
      st.visitsLeft + 1 ≤ (s.searchLoop start total selected (s.search remaining)
        (List.range' index count) st).visitsLeft + 2 ^ (s.candidates.length - index) := by
  induction count generalizing index st with
  | zero =>
    have hpos := Nat.two_pow_pos (s.candidates.length - index)
    exact ⟨hdone, by rw [List.range'_zero, searchLoop]; omega⟩
  | succ count ih =>
    have hpow : 2 ^ (s.candidates.length - index)
        = 2 * 2 ^ (s.candidates.length - (index + 1)) := by
      rw [← Nat.pow_succ', show s.candidates.length - index
        = (s.candidates.length - (index + 1)).succ by omega]
    obtain ⟨st', hround, hst', hdone', hleft⟩ := searchLoop_round hs hp hdescend hstart (by omega)
      hst hdone (by omega) (List.range' (index + 1) count)
    obtain ⟨hcovers, hrest⟩ := ih (by omega) (by omega) hst' hdone' (by omega)
    rw [List.range'_succ, hround]
    rw [Nat.add_right_comm] at hcovers
    exact ⟨hcovers, by omega⟩

/-- A call covers all its sets. -/
theorem search_covers (hs : s.Small) (remaining : Nat) : s.CallCovers remaining := by
  induction remaining with
  | zero =>
    intro start total selected st hp hst _
    have hpos := Nat.two_pow_pos (s.candidates.length - start)
    rw [search, recordIfValid_visitsLeft]
    refine ⟨fun chosen _ hlen hacceptable => ?_, by omega⟩
    rw [List.eq_nil_of_length_eq_zero hlen, List.append_nil] at hacceptable ⊢
    exact (recordIfValid_covered hp hst).2 hs hacceptable
  | succ remaining ih =>
    intro start total selected st hp hst hvisits
    have hpos := Nat.two_pow_pos (s.candidates.length - start)
    have hbounds := fun chosen => @SearchPath.bounds _ _ _ _ _ _ hp hs.descending hs.bounded chosen
    -- Each pruning rule leaves out sets that are covered or not acceptable.
    rw [search]
    split_ifs with hfew hover hbest hshort hbestMin
    · refine ⟨fun chosen hsub hlen _ => ?_, by omega⟩
      have hle := hsub.length_le
      rw [List.length_drop] at hle
      omega
    · refine ⟨fun chosen hsub hlen hacceptable => ?_, by omega⟩
      have hmin := (hbounds chosen hsub hlen).2.1
      have hexact := hacceptable.exact hover.1
      have hlarge := hover.2
      rw [BitVec.lt_def] at hlarge
      omega
    · refine ⟨fun chosen hsub hlen _ => ?_, by omega⟩
      exact covered_of_best hs (sublist_of_split hp.sublist hsub) (hbounds chosen hsub hlen).1 hbest
    · refine ⟨fun chosen hsub hlen hacceptable => ?_, by omega⟩
      have hmax := (hbounds chosen hsub hlen).2.2
      have hcovers := hacceptable.covers
      rw [BitVec.lt_def] at hshort
      omega
    · refine ⟨fun chosen hsub hlen _ => ?_, by omega⟩
      exact covered_of_best hs (sublist_of_split hp.sublist hsub) (hbounds chosen hsub hlen).2.1
        hbestMin
    · obtain ⟨hcovers, hleft⟩ := searchLoop_covers hs hp ih
        (s.candidates.length - (remaining + 1) + 1 - start) (le_refl start) (by omega) hst
        (fun earlier hge hlt => absurd hlt (Nat.not_lt.mpr hge)) hvisits
      exact ⟨hcovers.coversFrom (by omega), hleft⟩

/-- A whole search covers all sets, within its visits. -/
theorem run_covers (hs : s.Small) :
    (∀ chosen, chosen.Sublist s.candidates → s.Acceptable chosen →
      ∃ b, s.run = some b ∧ s.NoWorse b (selectionOf chosen)) ∧
      0 < (s.search s.targetCount 0 0 [] ⟨none, maxSelectionSearchVisits⟩).visitsLeft := by
  have hpow : 2 ^ s.candidates.length ≤ maxSelectionSearchVisits :=
    Nat.pow_le_pow_right (by decide) hs.few
  have hnone : ∀ b ∈ (⟨none, maxSelectionSearchVisits⟩ : State).best, s.Valid b :=
    fun _ h => absurd h (Option.not_mem_none _)
  obtain ⟨hcovers, hleft⟩ := search_covers hs s.targetCount 0 0 [] _ (.start _ _) hnone
    (by dsimp only; rw [Nat.sub_zero]; omega)
  rw [Nat.sub_zero] at hleft
  dsimp only at hleft
  refine ⟨fun chosen hsub hacceptable => ?_, by omega⟩
  exact hcovers chosen hsub hacceptable.count hacceptable

end SelectionSearch

end Railgun
