import Railgun.Theory.Candidates

/-!
# Soundness of the Note Searches

Whatever a search records is a set of candidates of the right size whose total
is the wrapping sum of its notes, and which covers the amount or stays below
it. Nothing here depends on the order of the candidates, on the pruning rules
or on the visit budget: those decide what is found, not whether it is sound.

The searches are reasoned about through one rule each. `search_preserves` says
that a property of the state which survives spending a visit and recording a
complete path survives a whole search; `SearchPath` is what is known of the
index list at every call. The soundness of the best selection and the fact that a
best selection is never lost are two instances.

## Main definitions

* `SearchPath`: The index list of a call, and what it stands for.
* `SelectionSearch.Valid`, `PartialSelectionSearch.Valid`: A selection a search may
  return.

## Theorems

* `SelectionSearch.search_preserves`, `PartialSelectionSearch.search_preserves`: The
  invariant rules.
* `SelectionSearch.recordIfValid_cases`: What recording an index list does.
* `SelectionSearch.run_valid`: What a search returns is valid.
* `PartialSelectionSearch.run_valid`: What a partial search finds is valid.
-/

namespace Railgun

/-- The index list of a call chooses candidates before `start`, `remaining`
    short of the target, and `total` is their total. -/
structure SearchPath (candidates : List Utxo) (target remaining start : Nat) (total : U256)
    (selected : List Nat) : Prop where
  sublist : (pick candidates selected).Sublist (candidates.take start)
  length : (pick candidates selected).length + remaining = target
  total : total = noteTotal (pick candidates selected)

/-- A search starts with the empty list. -/
theorem SearchPath.start (candidates : List Utxo) (target : Nat) :
    SearchPath candidates target target 0 0 [] :=
  ⟨List.nil_sublist _, Nat.zero_add _, rfl⟩

/-- A descent appends a candidate from `start` on. -/
theorem SearchPath.step {candidates : List Utxo} {target remaining start index : Nat}
    {total : U256} {selected : List Nat}
    (hp : SearchPath candidates target (remaining + 1) start total selected)
    (hle : start ≤ index) (hlt : index < candidates.length) :
    SearchPath candidates target remaining (index + 1) (total + valueAt candidates index)
      (selected ++ [index]) := by
  refine ⟨pick_sublist_take hp.sublist hle hlt, ?_, ?_⟩
  · rw [pick_append_singleton hlt, List.length_append, List.length_singleton]
    have hlen := hp.length
    omega
  · rw [pick_append_singleton hlt, noteTotal_append, noteTotal_cons, noteTotal_nil, add_zero,
      ← hp.total, valueAt_eq hlt]

namespace SelectionSearch

/-- What is known of the index list of a call. -/
abbrev Path (s : SelectionSearch) := SearchPath s.candidates s.targetCount

variable {total : U256} {s : SelectionSearch} {selected : List Nat} {start : Nat} {st : State}

/-- The invariant rule of one level: the loop only spends visits and descends. -/
theorem searchLoop_preserves (s : SelectionSearch) (I : State → Prop) (start : Nat)
    (total : U256) (selected : List Nat) (descend : Nat → U256 → List Nat → State → State)
    (hvisit : ∀ st, I st → I { st with visitsLeft := st.visitsLeft - 1 })
    (indices : List Nat) (st : State)
    (hdesc : ∀ index ∈ indices, ∀ st, I st → I (descend (index + 1)
      (total + valueAt s.candidates index) (selected ++ [index]) st)) (hst : I st) :
    I (s.searchLoop start total selected descend indices st) := by
  induction indices generalizing st with
  | nil => exact hst
  | cons index rest ih =>
    obtain ⟨hhere, hrest⟩ := List.forall_mem_cons.mp hdesc
    have hspent := hvisit st hst
    rw [searchLoop]
    dsimp only
    split_ifs
    · exact ih st hrest hst
    · exact hst
    · exact ih _ hrest hspent
    · exact ih _ hrest hspent
    · exact ih _ hrest (hhere _ hspent)

/-- The invariant rule of the search: what survives spending a visit and
    recording a complete path survives a whole search. -/
theorem search_preserves (s : SelectionSearch) (I : State → Prop)
    (hvisit : ∀ st, I st → I { st with visitsLeft := st.visitsLeft - 1 })
    (hrecord : ∀ start total selected st, s.Path 0 start total selected → I st →
      I (s.recordIfValid total selected st))
    (remaining start : Nat) (total : U256) (selected : List Nat) (st : State)
    (hp : s.Path remaining start total selected) (hst : I st) :
    I (s.search remaining start total selected st) := by
  induction remaining generalizing start total selected st with
  | zero => exact hrecord start total selected st hp hst
  | succ remaining ih =>
    rw [search]
    -- Each pruning rule leaves the state alone.
    split_ifs
    iterate 5 exact hst
    refine searchLoop_preserves s I start total selected _ hvisit _ st ?_ hst
    intro index hmem st' hst'
    rcases List.mem_range'.mp hmem with ⟨i, hi, hindex⟩
    exact ih _ _ _ st' (hp.step (by omega) (by omega)) hst'

/-- A selection of the target size that covers the amount and leaves room for
    its outputs in the signature. -/
structure Valid (s : SelectionSearch) (selection : UtxoSelection) : Prop where
  chosen : ∃ chosen : List Utxo, chosen.Sublist s.candidates ∧
    chosen.length = s.targetCount ∧ selection.utxos.Perm chosen
  total : selection.total = noteTotal selection.utxos
  covers : s.amount ≤ selection.total
  signature : 2 + s.targetCount + (s.baseOutputCount +
    (if s.amount < selection.total then 1 else 0)) ≤ maxSignatureInputs

/-- A complete index list is recorded if it covers the amount and its outputs fit
    the signature. -/
def Accepts (s : SelectionSearch) (total : U256) : Prop :=
  ¬ total < s.amount ∧ 2 + s.targetCount + (s.baseOutputCount +
    (if s.amount < total then 1 else 0)) ≤ maxSignatureInputs

/-- A list is rejected and the state stays as it is, or it is accepted and offered. -/
theorem recordIfValid_cases (s : SelectionSearch) (total : U256) (selected : List Nat)
    (st : State) :
    (¬ s.Accepts total ∧ s.recordIfValid total selected st = st) ∨
      (s.Accepts total ∧ s.recordIfValid total selected st = { st with
        best := keepBest (fun selection best => selection.isBetterForAmountThan best s.amount)
          st.best (some ⟨normalizeSelection (pick s.candidates selected), total⟩) }) := by
  rw [recordIfValid, Accepts]
  dsimp only
  by_cases hcovers : total < s.amount
  · exact Or.inl ⟨fun h => h.1 hcovers, if_pos hcovers⟩
  rw [if_neg hcovers]
  by_cases hsig : 2 + s.targetCount + (s.baseOutputCount +
      (if s.amount < total then 1 else 0)) > maxSignatureInputs
  · exact Or.inl ⟨fun h => absurd h.2 (Nat.not_le.mpr hsig), if_pos hsig⟩
  · exact Or.inr ⟨⟨hcovers, Nat.le_of_not_lt hsig⟩, if_neg hsig⟩

/-- A total that covers the amount is accepted, unless there is change and no room
    for it. -/
theorem accepts_of_covers (hroom : 2 + s.targetCount + s.baseOutputCount ≤ maxSignatureInputs)
    (hcovers : s.amount.toNat ≤ total.toNat)
    (hexact : s.exactOnly = true → total.toNat = s.amount.toNat) : s.Accepts total := by
  refine ⟨Nat.not_lt.mpr hcovers, ?_⟩
  split_ifs with hchange
  · by_contra hover
    have hsame := hexact (decide_eq_true (by omega))
    rw [BitVec.lt_def] at hchange
    omega
  · exact hroom

theorem valid_of_path (hp : s.Path 0 start total selected) (haccepts : s.Accepts total) :
    s.Valid { utxos := normalizeSelection (pick s.candidates selected), total := total } := by
  refine ⟨⟨pick s.candidates selected, hp.sublist.trans (List.take_sublist _ _), hp.length,
    normalizeSelection_perm _⟩, ?_, BitVec.not_lt.mp haccepts.1, haccepts.2⟩
  rw [noteTotal_perm (normalizeSelection_perm _)]
  exact hp.total

theorem recordIfValid_valid (hp : s.Path 0 start total selected)
    (hst : ∀ b ∈ st.best, s.Valid b) :
    ∀ b ∈ (s.recordIfValid total selected st).best, s.Valid b := by
  rcases s.recordIfValid_cases total selected st with ⟨-, h⟩ | ⟨haccepts, h⟩
  · rwa [h]
  · rw [h]
    dsimp only
    refine keepBest_forall _ hst ?_
    rintro b ⟨⟩
    exact valid_of_path hp haccepts

/-- What a search returns is valid. -/
theorem run_valid {selection : UtxoSelection}
    (h : s.run = some selection) : s.Valid selection := by
  have hinv := search_preserves s (fun st => ∀ b ∈ st.best, s.Valid b) (fun _ hst => hst)
    (fun start total selected st hp hst => recordIfValid_valid hp hst)
    s.targetCount 0 0 [] { best := none, visitsLeft := maxSelectionSearchVisits }
    (.start _ _) (by simp only [Option.mem_def, reduceCtorEq, false_implies, implies_true])
  exact hinv selection h

end SelectionSearch

namespace PartialSelectionSearch

/-- What is known of the index list of a call. -/
abbrev Path (s : PartialSelectionSearch) := SearchPath s.candidates s.maxInputCount

variable {total : U256} {start slots : Nat} {s : PartialSelectionSearch} {selected : List Nat}

theorem pick_ne_nil {index : Nat}
    (hlt : index < s.candidates.length) : pick s.candidates (selected ++ [index]) ≠ [] := by
  rw [pick_append_singleton hlt]
  exact List.append_ne_nil_of_right_ne_nil _ (List.cons_ne_nil _ _)

/-- The invariant rule of one level: the loop only spends visits, records
    longer lists below the amount, and descends from them. -/
theorem searchLoop_preserves (s : PartialSelectionSearch) (I : State → Prop)
    (total : U256) (selected : List Nat) (descend : Nat → U256 → List Nat → State → State)
    (hvisit : ∀ st, I st → I { st with visitsLeft := st.visitsLeft - 1 })
    (indices : List Nat) (st : State)
    (hdesc : ∀ index ∈ indices, total + valueAt s.candidates index < s.amount → ∀ st, I st →
      I (descend (index + 1) (total + valueAt s.candidates index) (selected ++ [index])
        (s.record (total + valueAt s.candidates index) (selected ++ [index]) st)))
    (hst : I st) : I (s.searchLoop total selected descend indices st) := by
  induction indices generalizing st with
  | nil => exact hst
  | cons index rest ih =>
    obtain ⟨hhere, hrest⟩ := List.forall_mem_cons.mp hdesc
    have hspent := hvisit st hst
    rw [searchLoop]
    dsimp only
    split_ifs with _ hbelow
    · exact hst
    · exact ih _ hrest hspent
    · exact ih _ hrest (hhere (BitVec.not_le.mp hbelow) _ hspent)

/-- The invariant rule of the partial search: what survives spending a visit
    and recording a nonempty path below the amount survives a whole search. -/
theorem search_preserves (s : PartialSelectionSearch) (I : State → Prop)
    (hvisit : ∀ st, I st → I { st with visitsLeft := st.visitsLeft - 1 })
    (hrecord : ∀ slots start total selected st, s.Path slots start total selected →
      pick s.candidates selected ≠ [] → total < s.amount → I st →
      I (s.record total selected st))
    (slots start : Nat) (total : U256) (selected : List Nat) (st : State)
    (hp : s.Path slots start total selected) (hst : I st) :
    I (s.search slots start total selected st) := by
  induction slots generalizing start total selected st with
  | zero => exact hst
  | succ slots ih =>
    rw [search]
    -- Each pruning rule leaves the state alone.
    split_ifs
    iterate 3 exact hst
    refine searchLoop_preserves s I total selected _ hvisit _ st ?_ hst
    intro index hmem hbelow st' hst'
    rcases List.mem_range'.mp hmem with ⟨i, hi, hindex⟩
    have hstep := hp.step (show start ≤ index by omega) (by omega)
    exact ih _ _ _ _ hstep (hrecord _ _ _ _ _ hstep (pick_ne_nil (by omega)) hbelow hst')

/-- A nonempty selection within the input limit whose total is below the
    amount. -/
structure Valid (s : PartialSelectionSearch) (selection : UtxoSelection) : Prop where
  chosen : ∃ chosen : List Utxo, chosen.Sublist s.candidates ∧ chosen ≠ [] ∧
    chosen.length ≤ s.maxInputCount ∧ selection.utxos.Perm chosen
  total : selection.total = noteTotal selection.utxos
  below : selection.total < s.amount

theorem valid_of_path (hp : s.Path slots start total selected)
    (hne : pick s.candidates selected ≠ []) (hbelow : total < s.amount) :
    s.Valid { utxos := normalizeSelection (pick s.candidates selected), total := total } := by
  have hlen := hp.length
  refine ⟨⟨pick s.candidates selected, hp.sublist.trans (List.take_sublist _ _), hne, by omega,
    normalizeSelection_perm _⟩, ?_, hbelow⟩
  rw [noteTotal_perm (normalizeSelection_perm _)]
  exact hp.total

theorem mem_pushUniqueSelectionCandidate {candidates : List UtxoSelection}
    {candidate selection : UtxoSelection} {limit : Nat}
    (h : selection ∈ pushUniqueSelectionCandidate candidates candidate limit) :
    selection ∈ candidates ∨ selection = candidate := by
  rw [pushUniqueSelectionCandidate] at h
  split_ifs at h
  · exact Or.inl h
  · exact Or.inl h
  · have hmem := (sortBy_perm _ _).mem_iff.mp (List.mem_of_mem_take h)
    rwa [List.mem_append, List.mem_singleton] at hmem

/-- Everything a state holds is valid. -/
def Sound (s : PartialSelectionSearch) (st : State) : Prop :=
  (∀ b ∈ st.best, s.Valid b) ∧ ∀ b ∈ st.selections, s.Valid b

theorem record_sound {st : State} (hp : s.Path slots start total selected)
    (hne : pick s.candidates selected ≠ []) (hbelow : total < s.amount) (hst : s.Sound st) :
    s.Sound (s.record total selected st) := by
  have hvalid := valid_of_path hp hne hbelow
  refine ⟨?_, fun b hb => ?_⟩
  · simp only [record]
    refine keepBest_forall _ hst.1 ?_
    rintro b ⟨⟩
    exact hvalid
  · rcases mem_pushUniqueSelectionCandidate hb with hold | rfl
    · exact hst.2 b hold
    · exact hvalid

/-- What a partial search finds is valid. -/
theorem run_valid (s : PartialSelectionSearch) : s.Sound s.run := by
  refine search_preserves s s.Sound (fun _ hst => hst)
    (fun slots start total selected st hp hne hbelow hst => record_sound hp hne hbelow hst)
    s.maxInputCount 0 0 [] _ (.start _ _) ⟨?_, ?_⟩
  · simp only [Option.mem_def, reduceCtorEq, false_implies, implies_true]
  · simp only [List.not_mem_nil, false_implies, implies_true]

end PartialSelectionSearch

end Railgun
