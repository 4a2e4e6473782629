import Railgun.Theory.Maximum

/-!
# An Exact Search Repeats a Partial One

A transaction with as many inputs as the circuit allows has no room for change,
so the covering search has to hit its amount exactly. When that amount is the
total a partial search has found with the same number of notes, the covering
search finds it too, although both give up after a number of visits that has
nothing to do with the size of the tree.

The two searches go through the same index lists in the same order, and they are
followed side by side. Until the partial search reaches the total, everything
the exact search visits the partial search visits as well: where the exact
search descends, some completion may still reach the amount, so the partial
search has no reason to turn back. Its budget therefore runs out first. What the
exact search leaves out cannot reach the amount: it turns back where the notes
left are too few, too small or too large, and it skips a note of the same value
as the one before it, whose completions all have a counterpart already seen.

## Main definitions

* `partner`: The partial search over the same candidates.

## Theorems

* `partial_settled`: Where no completion is exact, a partial search stays below
  the total or goes beyond it.
-/

namespace Railgun

open PartialSelectionSearch
open UtxoSelection (isBetterMaxThan)

/-- The partial search over the same candidates and the same number of
    notes. -/
def SelectionSearch.partner (s : SelectionSearch) (limit : U256) : PartialSelectionSearch where
  candidates := s.candidates
  amount := limit
  maxInputCount := s.targetCount
  selectionLimit := 1

/-- Nothing worth the amount has been found. -/
def Low (amount : U256) (best : Option UtxoSelection) : Prop := ∀ b ∈ best, b.total < amount

/-- More than the amount has been found, or the same with fewer notes. -/
def Passed (amount : U256) (count : Nat) (best : Option UtxoSelection) : Prop :=
  ∃ b ∈ best, amount < b.total ∨ (b.total = amount ∧ b.utxos.length < count)

theorem isBetterMaxThan_length {selection best : UtxoSelection}
    (h : selection.isBetterMaxThan best = true) (htotal : selection.total = best.total) :
    selection.utxos.length ≤ best.utxos.length := by
  have hself : compare best.total best.total = .eq := Std.ReflCmp.compare_self
  rw [isBetterMaxThan, htotal, hself] at h
  cases hcmp : compare selection.utxos.length best.utxos.length with
  | lt => exact Nat.le_of_lt (Nat.compare_eq_lt.mp hcmp)
  | eq => exact Nat.le_of_eq (Nat.compare_eq_eq.mp hcmp)
  | gt =>
    rw [hcmp] at h
    cases h

theorem Passed.keepBest {amount : U256} {count : Nat} {best : Option UtxoSelection}
    (h : Passed amount count best) (candidate : UtxoSelection) :
    Passed amount count
      (Railgun.keepBest isBetterMaxThan best (some candidate)) := by
  obtain ⟨b, hb, hpassed⟩ := h
  rw [hb, Railgun.keepBest, Option.all_some]
  split_ifs with hbetter
  · refine ⟨candidate, rfl, ?_⟩
    have hge := isBetterMaxThan_total.1 hbetter
    rcases hpassed with hmore | ⟨hsame, hfewer⟩
    · exact Or.inl (lt_of_lt_of_le (BitVec.lt_def.mp hmore) hge)
    · rcases Nat.lt_or_eq_of_le hge with hlt | heq
      · exact Or.inl (hsame ▸ BitVec.lt_def.mpr hlt)
      · have htotal := BitVec.eq_of_toNat_eq heq
        have hlength := isBetterMaxThan_length hbetter htotal.symm
        exact Or.inr ⟨by rw [← htotal, hsame], lt_of_le_of_lt hlength hfewer⟩
  · exact ⟨b, rfl, hpassed⟩

/-- A candidate that is not worth the amount with the target count keeps the best
    below it or takes it beyond. -/
theorem Low.keepBest {amount : U256} {count : Nat} {best : Option UtxoSelection}
    (h : Low amount best) (candidate : UtxoSelection)
    (hcandidate : candidate.total = amount → candidate.utxos.length < count) :
    (candidate.total < amount ∧
        Low amount (Railgun.keepBest isBetterMaxThan best (some candidate))) ∨
      Passed amount count
        (Railgun.keepBest isBetterMaxThan best (some candidate)) := by
  obtain ⟨k, hk, hle⟩ := keepBest_measure isBetterMaxThan (·.total.toNat)
    (fun _ _ => isBetterMaxThan_total.1) (fun _ _ => isBetterMaxThan_total.2)
    (show best = some candidate ∨ some candidate = some candidate from Or.inr rfl)
  rcases keepBest_eq_or isBetterMaxThan best (some candidate) with hold | hnew
  · -- An old best that stays is at least as good as the candidate.
    rw [hold] at hk ⊢
    exact Or.inl ⟨lt_of_le_of_lt hle (h k hk), h⟩
  · rw [hnew]
    rcases lt_trichotomy candidate.total.toNat amount.toNat with hlt | heq | hgt
    · refine Or.inl ⟨hlt, ?_⟩
      rintro b ⟨⟩
      exact hlt
    · have htotal := BitVec.eq_of_toNat_eq heq
      exact Or.inr ⟨candidate, rfl, Or.inr ⟨htotal, hcandidate htotal⟩⟩
    · exact Or.inr ⟨candidate, rfl, Or.inl hgt⟩

section Lockstep

variable (s : SelectionSearch)

/-- No choice of `remaining` notes from `start` on completes the total to the
    amount. -/
def NoExact (remaining start : Nat) (total : U256) : Prop :=
  ∀ chosen : List Utxo, chosen.Sublist (s.candidates.drop start) → chosen.length = remaining →
    total.toNat + valueSum chosen ≠ s.amount.toNat

variable {s} (hdesc : Descending s.candidates) (hsum : valueSum s.candidates < 2 ^ 256)

variable {total : U256} {remaining start index : Nat} {selected : List Nat}

include hsum in
theorem path_toNat_step (hp : s.Path (remaining + 1) start total selected) (hle : start ≤ index)
    (hlt : index < s.candidates.length) :
    (total + valueAt s.candidates index).toNat
      = total.toNat + (valueAt s.candidates index).toNat := by
  rw [(hp.step hle hlt).toNat_total hsum, hp.toNat_total hsum, pick_append_singleton hlt,
    valueSum_append, valueSum_cons, valueSum_nil, Nat.add_zero, valueAt_eq hlt]

include hsum in
theorem NoExact.child (h : NoExact s (remaining + 1) start total)
    (hp : s.Path (remaining + 1) start total selected) (hle : start ≤ index)
    (hlt : index < s.candidates.length) :
    NoExact s remaining (index + 1) (total + valueAt s.candidates index) := by
  intro chosen hsub hlen heq
  refine h (s.candidates[index] :: chosen) ?_ (by rw [List.length_cons, hlen]) ?_
  · refine List.Sublist.trans ?_ (List.drop_sublist_drop_left s.candidates hle)
    rw [List.drop_eq_getElem_cons hlt]
    exact hsub.cons_cons _
  · rw [path_toNat_step hsum hp hle hlt] at heq
    rw [valueSum_cons, ← valueAt_eq hlt]
    omega

include hsum in
theorem noExact_of_children (hp : s.Path (remaining + 1) start total selected)
    (h : ∀ index, start ≤ index → index < s.candidates.length →
      NoExact s remaining (index + 1) (total + valueAt s.candidates index)) :
    NoExact s (remaining + 1) start total := by
  intro chosen hsub hlen heq
  obtain ⟨first, rest, rfl⟩ := List.exists_cons_of_length_eq_add_one hlen
  obtain ⟨offset, hget, hrest⟩ := exists_of_cons_sublist hsub
  rw [List.getElem?_drop] at hget
  obtain ⟨hlt, hval⟩ := List.getElem?_eq_some_iff.mp hget
  rw [List.drop_drop, ← Nat.add_assoc] at hrest
  refine h (start + offset) (by omega) hlt rest hrest (Nat.succ.inj hlen) ?_
  rw [path_toNat_step hsum hp (by omega) hlt, valueAt_eq hlt, hval]
  rw [valueSum_cons] at heq
  omega

theorem NoExact.sibling
    (h : NoExact s remaining (index - 1 + 1) (total + valueAt s.candidates (index - 1)))
    (hpos : 0 < index) (hsame : valueAt s.candidates index = valueAt s.candidates (index - 1)) :
    NoExact s remaining (index + 1) (total + valueAt s.candidates index) := by
  intro chosen hsub hlen
  rw [hsame]
  refine h chosen (hsub.trans ?_) hlen
  exact List.drop_sublist_drop_left s.candidates (by omega)

theorem noExact_of_few (total : U256)
    (h : s.candidates.length - start < remaining) : NoExact s remaining start total := by
  intro chosen hsub hlen
  have hbound := hsub.length_le
  rw [List.length_drop] at hbound
  omega

include hdesc hsum in
/-- Where even the smallest notes are too large, or even the largest too small. -/
theorem noExact_of_bounds (hp : s.Path remaining start total selected)
    (h : s.amount < total + minPossibleFrom s.candidates remaining ∨
      total + maxPossibleFrom s.candidates start remaining < s.amount) :
    NoExact s remaining start total := by
  intro chosen hsub hlen heq
  obtain ⟨-, hmin, hmax⟩ := hp.bounds hdesc hsum hsub hlen
  rw [valueSum_append, ← hp.toNat_total hsum, heq] at hmin hmax
  rcases h with h | h
  · exact absurd h (Nat.not_lt.mpr hmin)
  · exact absurd h (Nat.not_lt.mpr hmax)

variable {limit : U256}

theorem partner_path (hp : s.Path remaining start total selected) :
    (s.partner limit).Path remaining start total selected :=
  ⟨hp.sublist, hp.length, hp.total⟩

variable (s) in
/-- A partial search that has not found the amount with the target count, and
    has so many visits left at most. -/
def Settled (visits : Nat) (st : PartialSelectionSearch.State) : Prop :=
  (Low s.amount st.best ∨ Passed s.amount s.targetCount st.best) ∧ st.visitsLeft ≤ visits

variable {st : PartialSelectionSearch.State}

theorem record_low (hp : s.Path remaining start total selected)
    (hmiss : remaining = 0 → total ≠ s.amount) (h : Low s.amount st.best) :
    (total < s.amount ∧ Low s.amount ((s.partner limit).record total selected st).best) ∨
      Passed s.amount s.targetCount ((s.partner limit).record total selected st).best := by
  refine Low.keepBest h { utxos := normalizeSelection (pick s.candidates selected), total := total }
    ?_
  intro htotal
  rw [(normalizeSelection_perm _).length_eq]
  have hlength := hp.length
  have hopen : remaining ≠ 0 := fun hzero => hmiss hzero htotal
  omega

theorem record_passed (h : Passed s.amount s.targetCount st.best) :
    Passed s.amount s.targetCount ((s.partner limit).record total selected st).best :=
  h.keepBest _

theorem search_passed (hp : s.Path remaining start total selected)
    (h : Passed s.amount s.targetCount st.best) :
    Passed s.amount s.targetCount
      ((s.partner limit).search remaining start total selected st).best :=
  search_preserves _ (fun st => Passed s.amount s.targetCount st.best)
    (fun _ hst => hst) (fun _ _ _ _ _ _ _ _ hst => record_passed hst) _ _ _ _ _
    (partner_path hp) h

theorem noExact_complete (h : NoExact s 0 start total) :
    total ≠ s.amount := by
  intro htotal
  refine h [] (List.nil_sublist _) rfl ?_
  rw [valueSum_nil, Nat.add_zero, htotal]

variable {visits : Nat}

theorem record_settled (hp : s.Path remaining start total selected)
    (hno : NoExact s remaining start total) (h : Settled s visits st) :
    Settled s visits ((s.partner limit).record total selected st) := by
  refine ⟨?_, h.2⟩
  rcases h.1 with hlow | hpassed
  · have hmiss : remaining = 0 → total ≠ s.amount := by
      rintro rfl
      exact noExact_complete hno
    rcases record_low hp hmiss hlow with hbelow | hpassed
    · exact Or.inl hbelow.2
    · exact Or.inr hpassed
  · exact Or.inr (record_passed hpassed)

theorem Settled.visit (h : Settled s visits st) :
    Settled s visits { st with visitsLeft := st.visitsLeft - 1 } :=
  ⟨h.1, le_trans (Nat.sub_le _ _) h.2⟩

theorem partialLoop_settled (hp : s.Path (remaining + 1) start total selected)
    (hdescend : ∀ start total selected st, s.Path remaining start total selected →
      NoExact s remaining start total → Settled s visits st →
      Settled s visits ((s.partner limit).search remaining start total selected st))
    (indices : List Nat)
    (hindices : ∀ index ∈ indices, start ≤ index ∧ index < s.candidates.length ∧
      NoExact s remaining (index + 1) (total + valueAt s.candidates index))
    (h : Settled s visits st) :
    Settled s visits ((s.partner limit).searchLoop total selected
      ((s.partner limit).search remaining) indices st) := by
  refine searchLoop_preserves _ (Settled s visits) total selected _
    (fun _ => Settled.visit) indices st ?_ h
  intro index hmem _ st' hst'
  obtain ⟨hle, hlt, hchild⟩ := hindices index hmem
  have hstep := hp.step hle hlt
  exact hdescend _ _ _ _ hstep hchild (record_settled hstep hchild hst')

include hsum in
/-- Where no completion is exact, a partial search stays below the total or goes
    beyond it. -/
theorem partial_settled (start : Nat) (total : U256) (selected : List Nat)
    (st : PartialSelectionSearch.State) (hp : s.Path remaining start total selected)
    (hno : NoExact s remaining start total) (hst : Settled s visits st) :
    Settled s visits ((s.partner limit).search remaining start total selected st) := by
  induction remaining generalizing start total selected st with
  | zero => exact hst
  | succ remaining ih =>
    rw [search]
    -- Each pruning rule leaves the state alone.
    split_ifs with hroom
    iterate 3 exact hst
    refine partialLoop_settled hp ih _ (fun index hmem => ?_) hst
    rcases List.mem_range'.mp hmem with ⟨i, hi, hindex⟩
    have hlt : index < s.candidates.length := by
      dsimp only [SelectionSearch.partner] at hi hroom
      omega
    exact ⟨by omega, hlt, hno.child hsum hp (by omega) hlt⟩

variable (s) in
/-- What both searches know after the same part of the tree: the exact search
    has found something, or the partial search is beyond the amount, or neither
    has got there and the partial search has no more visits left than the exact
    one. In the last case the part of the tree has no exact completion, unless
    the partial search has stopped. -/
def Side (missed : Prop) (e : SelectionSearch.State) (p : PartialSelectionSearch.State) :
    Prop :=
  e.best.isSome = true ∨ Passed s.amount s.targetCount p.best ∨
    (e.best = none ∧ Low s.amount p.best ∧ p.visitsLeft ≤ e.visitsLeft ∧
      (p.visitsLeft = 0 ∨ missed))

variable {e : SelectionSearch.State} {p : PartialSelectionSearch.State}

theorem Settled.side {missed : Prop} (hnone : e.best = none)
    (h : Settled s e.visitsLeft p) (hmissed : missed) : Side s missed e p := by
  rcases h.1 with hlow | hpassed
  · exact Or.inr (Or.inr ⟨hnone, hlow, h.2, Or.inr hmissed⟩)
  · exact Or.inr (Or.inl hpassed)

theorem side_of_stopped (missed : Prop) (e : SelectionSearch.State) (hlow : Low s.amount p.best)
    (hstop : p.visitsLeft = 0) :
    Side s missed e p := by
  cases hbest : e.best with
  | some b => exact Or.inl (by rw [hbest]; rfl)
  | none =>
    refine Or.inr (Or.inr ⟨hbest, hlow, ?_, Or.inl hstop⟩)
    rw [hstop]
    exact Nat.zero_le _

theorem partialLoop_stopped {descend : Nat → U256 → List Nat → PartialSelectionSearch.State →
      PartialSelectionSearch.State} (indices : List Nat)
    (hstop : p.visitsLeft = 0) :
    (s.partner limit).searchLoop total selected descend indices p = p := by
  cases indices with
  | nil => rfl
  | cons index rest => rw [searchLoop, if_pos hstop]

variable (hexact : s.exactOnly = true)
  (hsignature : 2 + s.targetCount + s.baseOutputCount ≤ maxSignatureInputs)
  (hlimit : s.amount < limit)

/-- What the searches below a list of `remaining` free places satisfy. -/
def NodeLockstep (s : SelectionSearch) (limit : U256) (remaining : Nat) : Prop :=
  ∀ (start : Nat) (total : U256) (selected : List Nat) (e : SelectionSearch.State)
    (p : PartialSelectionSearch.State), s.Path remaining start total selected →
    total < s.amount → e.best = none → Low s.amount p.best → p.visitsLeft ≤ e.visitsLeft →
    Side s (NoExact s remaining start total) (s.search remaining start total selected e)
      ((s.partner limit).search remaining start total selected p)

include hsignature in
theorem lockstep_child
    (hnode : NodeLockstep s limit remaining) (hp : s.Path remaining start total selected)
    (hle : total ≤ s.amount) (hnone : e.best = none) (hlow : Low s.amount p.best)
    (hvisits : p.visitsLeft ≤ e.visitsLeft) :
    Side s (NoExact s remaining start total) (s.search remaining start total selected e)
      ((s.partner limit).search remaining start total selected
        ((s.partner limit).record total selected p)) := by
  by_cases hfound : remaining = 0 ∧ total = s.amount
  · -- A complete list worth the amount is what the exact search looks for.
    obtain ⟨rfl, rfl⟩ := hfound
    exact Or.inl (SelectionSearch.recordIfValid_isSome (Or.inr
      (SelectionSearch.accepts_of_covers hsignature (le_refl _) fun _ => rfl)))
  · have hmiss : remaining = 0 → total ≠ s.amount := fun hzero htotal => hfound ⟨hzero, htotal⟩
    rcases record_low hp hmiss hlow with hbelow | hpassed
    · exact hnode start total selected e _ hp hbelow.1 hnone hbelow.2 hvisits
    · exact Or.inr (Or.inl (search_passed hp hpassed))

include hsum hsignature hexact hlimit in
theorem lockstep_index (hnode : NodeLockstep s limit remaining)
    (hp : s.Path (remaining + 1) start total selected) (hle : start ≤ index)
    (hlt : index < s.candidates.length) (hnone : e.best = none) (hlow : Low s.amount p.best)
    (hvisits : p.visitsLeft ≤ e.visitsLeft) :
    Side s (NoExact s remaining (index + 1) (total + valueAt s.candidates index))
      (if s.exactOnly ∧ s.amount < total + valueAt s.candidates index then e
        else s.search remaining (index + 1) (total + valueAt s.candidates index)
          (selected ++ [index]) e)
      (if limit ≤ total + valueAt s.candidates index then p
        else (s.partner limit).search remaining (index + 1)
          (total + valueAt s.candidates index) (selected ++ [index])
          ((s.partner limit).record (total + valueAt s.candidates index)
            (selected ++ [index]) p)) := by
  have hstep := hp.step hle hlt
  by_cases hover : s.amount < total + valueAt s.candidates index
  · rw [if_pos ⟨hexact, hover⟩]
    have hmissed : NoExact s remaining (index + 1) (total + valueAt s.candidates index) := by
      intro chosen _ _ heq
      rw [BitVec.lt_def] at hover
      omega
    by_cases hfar : limit ≤ total + valueAt s.candidates index
    · rw [if_pos hfar]
      exact Or.inr (Or.inr ⟨hnone, hlow, hvisits, Or.inr hmissed⟩)
    · rw [if_neg hfar]
      exact Settled.side hnone (partial_settled hsum _ _ _ _ hstep hmissed
        (record_settled hstep hmissed ⟨Or.inl hlow, hvisits⟩)) hmissed
  · have hnear : ¬ limit ≤ total + valueAt s.candidates index := by
      rw [BitVec.le_def]
      rw [BitVec.lt_def] at hover hlimit
      omega
    rw [if_neg (fun h => hover h.2), if_neg hnear]
    exact lockstep_child hsignature hnode hstep (BitVec.not_lt.mp hover) hnone hlow hvisits

theorem searchLoop_cons {rest : List Nat}
    {descend : Nat → U256 → List Nat → SelectionSearch.State → SelectionSearch.State}
    (hexact : s.exactOnly = true)
    (hfirst : ¬ (start < index ∧ valueAt s.candidates index = valueAt s.candidates (index - 1)))
    (hleft : e.visitsLeft ≠ 0) :
    s.searchLoop start total selected descend (index :: rest) e
      = s.searchLoop start total selected descend rest
        (if s.exactOnly ∧ s.amount < total + valueAt s.candidates index then
            { e with visitsLeft := e.visitsLeft - 1 }
          else descend (index + 1) (total + valueAt s.candidates index) (selected ++ [index])
            { e with visitsLeft := e.visitsLeft - 1 }) := by
  rw [SelectionSearch.searchLoop, if_neg hfirst, if_neg hleft]
  dsimp only
  split
  · rfl
  · rw [if_neg (fun h => h.1 hexact)]

theorem partialLoop_cons {rest : List Nat}
    {descend : Nat → U256 → List Nat → PartialSelectionSearch.State →
      PartialSelectionSearch.State}
    (hleft : p.visitsLeft ≠ 0) :
    (s.partner limit).searchLoop total selected descend (index :: rest) p
      = (s.partner limit).searchLoop total selected descend rest
        (if limit ≤ total + valueAt s.candidates index then
            { p with visitsLeft := p.visitsLeft - 1 }
          else descend (index + 1) (total + valueAt s.candidates index) (selected ++ [index])
            ((s.partner limit).record (total + valueAt s.candidates index) (selected ++ [index])
              { p with visitsLeft := p.visitsLeft - 1 })) := by
  rw [searchLoop, if_neg hleft]
  dsimp only
  have hamount : (s.partner limit).amount = limit := rfl
  have hsame : (s.partner limit).candidates = s.candidates := rfl
  rw [hamount, hsame]
  split <;> rfl

include hsum hsignature hexact hlimit in
/-- One round of a level of both searches, with visits left for the partner. -/
theorem lockstep_round (hnode : NodeLockstep s limit remaining)
    (hp : s.Path (remaining + 1) start total selected) (hle : start ≤ index)
    (hlt : index < s.candidates.length)
    (hearlier : ∀ earlier, start ≤ earlier → earlier < index →
      NoExact s remaining (earlier + 1) (total + valueAt s.candidates earlier))
    (hnone : e.best = none) (hlow : Low s.amount p.best) (hvisits : p.visitsLeft ≤ e.visitsLeft)
    (hleft : p.visitsLeft ≠ 0) (rest partnerRest : List Nat) :
    ∃ e' p', s.searchLoop start total selected (s.search remaining) (index :: rest) e
        = s.searchLoop start total selected (s.search remaining) rest e' ∧
      (s.partner limit).searchLoop total selected ((s.partner limit).search remaining)
          (index :: partnerRest) p
        = (s.partner limit).searchLoop total selected ((s.partner limit).search remaining)
          partnerRest p' ∧
      Side s (NoExact s remaining (index + 1) (total + valueAt s.candidates index)) e' p' := by
  by_cases hskip : start < index ∧ valueAt s.candidates index = valueAt s.candidates (index - 1)
  · -- The exact search skips a note worth as much as the one before it.
    have hmissed : NoExact s remaining (index + 1) (total + valueAt s.candidates index) :=
      (hearlier (index - 1) (by omega) (by omega)).sibling (by omega) hskip.2
    refine ⟨e, _, by rw [SelectionSearch.searchLoop, if_pos hskip], partialLoop_cons hleft,
      Settled.side hnone ?_ hmissed⟩
    have hspent : Settled s e.visitsLeft { p with visitsLeft := p.visitsLeft - 1 } :=
      Settled.visit ⟨Or.inl hlow, hvisits⟩
    have hstep := hp.step hle hlt
    split_ifs
    · exact hspent
    · exact partial_settled hsum _ _ _ _ hstep hmissed (record_settled hstep hmissed hspent)
  · exact ⟨_, _, searchLoop_cons hexact hskip (by omega), partialLoop_cons hleft,
      lockstep_index hsum hexact hsignature hlimit hnode hp hle hlt hnone hlow
        (Nat.sub_le_sub_right hvisits 1)⟩

include hsum hsignature hexact hlimit in
/-- One level of both searches. The exact search stops where too few notes are
    left to complete the list, its partner goes on to the last note. -/
theorem lockstep_loop (hnode : NodeLockstep s limit remaining)
    (hp : s.Path (remaining + 1) start total selected) (count : Nat) (hle : start ≤ index)
    (hlength : index + count + remaining = s.candidates.length)
    (hearlier : ∀ earlier, start ≤ earlier → earlier < index →
      NoExact s remaining (earlier + 1) (total + valueAt s.candidates earlier))
    (hnone : e.best = none) (hlow : Low s.amount p.best)
    (hvisits : p.visitsLeft ≤ e.visitsLeft) :
    Side s (NoExact s (remaining + 1) start total)
      (s.searchLoop start total selected (s.search remaining) (List.range' index count) e)
      ((s.partner limit).searchLoop total selected ((s.partner limit).search remaining)
        (List.range' index (count + remaining)) p) := by
  induction count generalizing index e p with
  | zero =>
    -- Only the partner goes on, with too few notes for a complete list.
    have hfew : ∀ later, index ≤ later → later < s.candidates.length →
        NoExact s remaining (later + 1) (total + valueAt s.candidates later) :=
      fun later _ _ => noExact_of_few _ (by omega)
    refine Settled.side hnone (partialLoop_settled hp (partial_settled hsum) _ ?_
      ⟨Or.inl hlow, hvisits⟩) ?_
    · intro later hmem
      rcases List.mem_range'.mp hmem with ⟨i, hi, hlater⟩
      exact ⟨by omega, by omega, hfew later (by omega) (by omega)⟩
    · refine noExact_of_children hsum hp ?_
      intro other hother hotherLt
      rcases Nat.lt_or_ge other index with hbefore | hafter
      · exact hearlier other hother hbefore
      · exact hfew other hafter hotherLt
  | succ count ih =>
    by_cases hstop : p.visitsLeft = 0
    · rw [partialLoop_stopped _ hstop]
      exact side_of_stopped _ _ hlow hstop
    obtain ⟨e', p', hround, hpartner, hside⟩ := lockstep_round hsum hexact hsignature hlimit hnode
      hp hle (by omega) hearlier hnone hlow hvisits hstop (List.range' (index + 1) count)
      (List.range' (index + 1) (count + remaining))
    rw [Nat.add_right_comm, List.range'_succ, List.range'_succ, hround, hpartner]
    -- What is known after this index carries over to the rest of the level.
    rcases hside with hfound | hpassed | ⟨hnone, hlow, hvisits, hstop | hmissed⟩
    · refine Or.inl (SelectionSearch.searchLoop_preserves s (fun st => st.best.isSome = true) start
        total selected _ (fun _ hst => hst) _ e' ?_ hfound)
      intro other hmem st' hst'
      rcases List.mem_range'.mp hmem with ⟨i, hi, hother⟩
      exact SelectionSearch.search_isSome (hp.step (by omega) (by omega)) hst'
    · refine Or.inr (Or.inl (searchLoop_preserves _
        (fun st => Passed s.amount s.targetCount st.best) total selected _
        (fun _ hst => hst) _ p' ?_ hpassed))
      intro other hmem _ st' hst'
      rcases List.mem_range'.mp hmem with ⟨i, hi, hother⟩
      exact search_passed (hp.step (by omega) (by omega)) (record_passed hst')
    · rw [partialLoop_stopped _ hstop]
      exact side_of_stopped _ _ hlow hstop
    · refine ih (show start ≤ index + 1 by omega) (by omega) ?_ hnone hlow hvisits
      intro earlier hge hearlierLt
      rcases Nat.lt_succ_iff_lt_or_eq.mp hearlierLt with hbefore | rfl
      · exact hearlier earlier hge hbefore
      · exact hmissed

include hdesc hsum hsignature hexact hlimit in
theorem lockstep_node : ∀ remaining, NodeLockstep s limit remaining := by
  intro remaining
  induction remaining with
  | zero =>
    intro start total selected e p _ hbelow hnone hlow hvisits
    rw [SelectionSearch.search, search, SelectionSearch.recordIfValid, if_pos hbelow]
    refine Or.inr (Or.inr ⟨hnone, hlow, hvisits, Or.inr ?_⟩)
    intro chosen _ hlen heq
    rw [List.length_eq_zero_iff.mp hlen, valueSum_nil] at heq
    rw [BitVec.lt_def] at hbelow
    omega
  | succ remaining ih =>
    intro start total selected e p hp hbelow hnone hlow hvisits
    -- Where the exact search turns back, its partner goes on alone.
    have halone : NoExact s (remaining + 1) start total →
        Side s (NoExact s (remaining + 1) start total) e
          ((s.partner limit).search (remaining + 1) start total selected p) := by
      intro hmissed
      exact Settled.side hnone
        (partial_settled hsum _ _ _ _ hp hmissed ⟨Or.inl hlow, hvisits⟩) hmissed
    rw [SelectionSearch.search]
    split_ifs with hfew hmin hbest hmax hbestMin
    · exact halone (noExact_of_few total hfew)
    · exact halone (noExact_of_bounds hdesc hsum hp (Or.inl hmin.2))
    · exact absurd hexact hbest.1
    · exact halone (noExact_of_bounds hdesc hsum hp (Or.inr hmax))
    · exact absurd hexact hbestMin.1
    -- The partner does not turn back either: it has found less than it may
    -- still find here.
    have hprune : ¬ ((s.partner limit).selectionLimit ≤ 1 ∧ p.best.any (fun best => decide
        (total + maxPossibleFrom (s.partner limit).candidates start (remaining + 1)
          ≤ best.total)) = true) := by
      rintro ⟨_, hany⟩
      rw [Option.any_eq_true] at hany
      obtain ⟨best, hbest, hle⟩ := hany
      have hlt := hlow best hbest
      have hle' := of_decide_eq_true hle
      have hsame : (s.partner limit).candidates = s.candidates := rfl
      rw [hsame, BitVec.le_def] at hle'
      rw [BitVec.lt_def] at hlt hmax
      omega
    have hmany : ∀ q : Prop, ¬ (1 < (s.partner limit).selectionLimit ∧ q) :=
      fun q h => Nat.lt_irrefl _ h.1
    have hsame : (s.partner limit).candidates = s.candidates := rfl
    rw [search, if_neg (by rw [hsame]; omega), if_neg hprune, if_neg (hmany _), hsame]
    have hlevel := lockstep_loop hsum hexact hsignature hlimit ih hp
      (s.candidates.length - (remaining + 1) + 1 - start) (le_refl start) (by omega)
      (fun earlier hle hlt => absurd hle (Nat.not_le.mpr hlt)) hnone hlow hvisits
    rw [show s.candidates.length - (remaining + 1) + 1 - start + remaining
      = s.candidates.length - start by omega] at hlevel
    exact hlevel

include hdesc hsum hsignature hexact hlimit in
/-- The exact search finds the total its partner has found with as many notes,
    whatever the number of candidates. -/
theorem run_isSome_of_partner {best : UtxoSelection}
    (hbest : (s.partner limit).run.best = some best) (htotal : best.total = s.amount)
    (hlength : best.utxos.length = s.targetCount) (hpositive : 0 < s.amount) :
    s.run.isSome = true := by
  have hside := lockstep_node hdesc hsum hexact hsignature hlimit s.targetCount 0 0 []
    { best := none, visitsLeft := maxSelectionSearchVisits }
    { best := none, selections := [], visitsLeft := maxSelectionSearchVisits }
    (.start _ _) hpositive rfl
    (by simp only [Low, Option.mem_def, reduceCtorEq, false_implies, implies_true])
    (le_refl _)
  rcases hside with hfound | ⟨b, hb, hpassed⟩ | ⟨_, hlow, _⟩
  · exact hfound
  · have hsame : b = best := by
      rw [Option.mem_def] at hb
      exact Option.some.inj (hb.symm.trans hbest)
    rw [hsame, htotal, hlength] at hpassed
    rcases hpassed with hmore | ⟨_, hfewer⟩
    · exact absurd hmore (Nat.lt_irrefl _)
    · exact absurd hfewer (Nat.lt_irrefl _)
  · have hlt := hlow best hbest
    rw [htotal] at hlt
    exact absurd hlt (Nat.lt_irrefl _)

end Lockstep

end Railgun
