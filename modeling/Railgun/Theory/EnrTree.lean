import Railgun.Core.EnrTree
import Railgun.Lib.Fallible

/-!
# What Discovery Finds

A walk only follows labels that stand in entries whose hashes were checked, so by
induction along the walk every record comes from the signed root. A walk makes at
least one lookup and at most 64. The budget is looked at before a walk, so the last
walk can go beyond it by 63 lookups.

## Main definitions

* `EnrTreeEnv.Names`, `EnrTreeEnv.Reached`: The labels of entries and those below a root.
* `EnrTreeEnv.VerifiedRoot`, `EnrTreeEnv.RecordBelow`, `EnrTreeEnv.Authentic`: The
  records of the tree of a URL.
* `lookupBound`, `FoundRecords`, `Pass`: The bounds of discovery and what it finds.
* `cyclicEnv`: A tree that has no record.

## Theorems

* `verifiedRoot_of_parse`: A root is only accepted if its signature verifies.
* `mem_of_choice`: The label followed is one of the branch.
* `walkLoop_spec`: What one walk finds, and how many lookups it makes.
* `FoundRecords.record`: The record of a walk is added.
* `discoverStep_spec`, `discoverLoop_spec`: What one pass and all passes find.
* `discoverLoop_extends`: Larger limits only add passes.
* `discoverFromTree_cases`: Discovery fails at once, or it walks from a signed root.
* `discovery_bounded_authentic`: Discovery ends, within the bounds, with peers of
  the tree.
* `walkLoop_cyclicEnv`, `discovery_cyclicEnv`: The bound is reached.
* `discovery_extends`: Larger limits lose no peer.
-/

namespace Railgun

namespace EnrTreeEnv

variable {Peer : Type} (env : EnrTreeEnv Peer)

/-- A label begins the hash of an entry. -/
def Names (label entry : String) : Prop :=
  ∃ hash, decodeHashLabel env label = .ok hash ∧ hash.isPrefixOf (env.keccak256 entry) = true

/-- The labels below the label of a root. -/
inductive Reached (eRoot : String) : String → Prop
  | root : Reached eRoot eRoot
  | branch {label entry next : String} {branches : List String} : Reached eRoot label →
      env.Names label entry → parseBranch env entry = .ok branches → next ∈ branches →
      Reached eRoot next

/-- The signature of a root verifies, and this is the label of its peers. -/
def VerifiedRoot (publicKeyB32 root eRoot : String) : Prop :=
  ∃ signatureText publicKey signature signed,
    parseRootValues env root = .ok ⟨eRoot, signatureText⟩ ∧
      env.decodeBase32 true publicKeyB32 = some publicKey ∧
      env.decodeBase64 signatureText = some signature ∧ signedComponent root = some signed ∧
      env.verifyPrehash publicKey (env.keccak256 signed) (signature.take 64) = true

/-- A record below the label of a root. -/
def RecordBelow (eRoot record : String) : Prop :=
  ∃ label, env.Reached eRoot label ∧ env.Names label record ∧ record.startsWith recordPrefix = true

end EnrTreeEnv

section Walks

variable {Peer : Type} {env : EnrTreeEnv Peer} {domain eRoot : String}

theorem elim_error_eq_ok {α : Type} {x : Option α} {error : EnrTreeError} {a : α} :
    x.elim (.error error) .ok = (.ok a : Except EnrTreeError α) ↔ x = some a := by
  cases x with
  | none => simp
  | some b => simp

/-- A root is only accepted if its signature verifies. -/
theorem verifiedRoot_of_parse {root publicKeyB32 : String}
    (h : parseAndVerifyRoot env root publicKeyB32 = .ok eRoot) :
    env.VerifiedRoot publicKeyB32 root eRoot := by
  unfold parseAndVerifyRoot at h
  simp only [ite_error_eq_ok, bind_eq_ok, elim_error_eq_ok, not_not] at h
  obtain ⟨-, values, hvalues, -, -, publicKey, hkey, -, signature, hsignature, -, -, signed,
    hsigned, hverify, h⟩ := h
  cases h
  exact ⟨values.signature, publicKey, signature, signed, hvalues, hkey, hsignature, hsigned,
    hverify⟩

/-- The label that a walk follows stands in the branch. -/
theorem mem_of_choice {visited branches shuffled : List String} {next : String}
    (hperm : shuffled.Perm branches)
    (h : (shuffled.find? fun branch => branch ∉ visited).or shuffled.head? = some next) :
    next ∈ branches := by
  rcases Option.or_eq_some_iff.mp h with hfind | ⟨-, hhead⟩
  · exact hperm.mem_iff.mp (List.mem_of_find?_eq_some hfind)
  · exact hperm.mem_iff.mp (List.mem_of_head? hhead)

/-- A walk makes at least one lookup and at most one for each step, and a record that it
    finds is below the root. -/
theorem walkLoop_spec (steps queries : Nat) (visited : List String) {current : String}
    (h : env.Reached eRoot current) :
    queries + min 1 steps ≤ (walkLoop env domain steps queries visited current).2 ∧
      (walkLoop env domain steps queries visited current).2 ≤ queries + steps ∧
      ∀ record, (walkLoop env domain steps queries visited current).1 = .ok (some record) →
        env.RecordBelow eRoot record := by
  -- Only two ends of a step matter: a branch that is followed, and a record.
  fun_induction walkLoop env domain steps queries visited current with
  | case7 steps queries visited current hash hhash entry _ branches hparse shuffled next hnext _
      hfind ih =>
    have hprefix := List.find?_some hfind
    obtain ⟨hlow, hhigh, hrecord⟩ :=
      ih (.branch h ⟨hash, hhash, hprefix⟩ hparse
        (mem_of_choice (env.shuffle queries branches).2 hnext))
    exact ⟨by omega, by omega, hrecord⟩
  | case8 steps queries visited current hash hhash entry _ hrecord _ hfind =>
    refine ⟨by dsimp only; omega, by dsimp only; omega, fun record heq => ?_⟩
    cases heq
    have hprefix := List.find?_some hfind
    exact ⟨current, h, ⟨hash, hhash, hprefix⟩, hrecord⟩
  | _ => exact ⟨by dsimp only; omega, by dsimp only; omega, nofun⟩

/-- The number of lookups that are made at most. -/
def lookupBound (maxTxtQueries : Nat) : Nat :=
  if maxTxtQueries = 0 then 0 else maxTxtQueries + 63

/-- What has been found so far: the peers of different records below the root. -/
structure FoundRecords (env : EnrTreeEnv Peer) (eRoot : String) (maxEnrs : Nat)
    (peers : List Peer) (records : List String) : Prop where
  length_le : peers.length ≤ maxEnrs
  nodup : records.Nodup
  peers_eq : peers = records.reverse.filterMap env.decodeEnrRecord
  below : ∀ record ∈ records, env.RecordBelow eRoot record

theorem FoundRecords.nil (maxEnrs : Nat) : FoundRecords env eRoot maxEnrs [] [] :=
  ⟨Nat.zero_le _, .nil, rfl, nofun⟩

/-- The peer of a new record comes after those found before. -/
theorem FoundRecords.record {maxEnrs : Nat} {peers : List Peer} {records : List String}
    (hfound : FoundRecords env eRoot maxEnrs peers records) (hroom : peers.length < maxEnrs)
    {record : String} (hnew : record ∉ records) (hbelow : env.RecordBelow eRoot record) :
    FoundRecords env eRoot maxEnrs (peers ++ (env.decodeEnrRecord record).toList)
      (record :: records) := by
  refine ⟨?_, List.nodup_cons.mpr ⟨hnew, hfound.nodup⟩, ?_,
    List.forall_mem_cons.mpr ⟨hbelow, hfound.below⟩⟩
  · rw [List.length_append]
    have := (env.decodeEnrRecord record).length_toList_le
    omega
  · rw [List.reverse_cons, List.filterMap_append, ← hfound.peers_eq]
    cases hdecode : env.decodeEnrRecord record <;> simp [hdecode]

/-- A pass makes between 1 and 64 lookups and only adds to what has been found. -/
structure Pass (env : EnrTreeEnv Peer) (eRoot : String) (maxEnrs : Nat)
    (state : DiscoverState Peer) (peers : List Peer) (records : List String)
    (queries : Nat) : Prop where
  lt_queries : state.totalQueries < queries
  queries_le : queries ≤ state.totalQueries + 64
  peers_prefix : state.peers <+: peers
  found : FoundRecords env eRoot maxEnrs peers records

/-- What one pass of the loop does, if there is room for another peer. -/
theorem discoverStep_spec {maxEnrs : Nat} {state : DiscoverState Peer}
    (hroom : state.peers.length < maxEnrs)
    (hfound : FoundRecords env eRoot maxEnrs state.peers state.seenRecords) :
    match discoverStep env domain eRoot state with
    | .inl (.error _, queries) => queries ≤ state.totalQueries + 64
    | .inl (.ok peers, queries) => ∃ records, Pass env eRoot maxEnrs state peers records queries
    | .inr next => Pass env eRoot maxEnrs state next.peers next.seenRecords next.totalQueries := by
  obtain ⟨hlow, hhigh, hrecord⟩ :=
    @walkLoop_spec _ env domain eRoot 64 state.totalQueries [] _ .root
  rw [discoverStep]
  generalize walkLoop env domain 64 state.totalQueries [] eRoot = walk at hlow hhigh hrecord
  obtain ⟨_ | _ | record, queries⟩ := walk
  · exact hhigh
  · have hpass : Pass env eRoot maxEnrs state state.peers state.seenRecords queries :=
      ⟨hlow, hhigh, List.prefix_rfl, hfound⟩
    dsimp only
    split_ifs with hmany
    · exact ⟨_, hpass⟩
    · exact hpass
  · dsimp only
    split_ifs with hseen hmany
    · exact ⟨hlow, hhigh, List.prefix_rfl, hfound⟩
    · exact ⟨_, hlow, hhigh, List.prefix_append _ _, hfound.record hroom hseen (hrecord _ rfl)⟩
    · exact ⟨hlow, hhigh, List.prefix_append _ _, hfound.record hroom hseen (hrecord _ rfl)⟩

/-- By induction over the passes, all of them stay within the bounds. -/
theorem discoverLoop_spec {maxTxtQueries maxEnrs fuel : Nat} {state : DiscoverState Peer}
    (hfuel : maxTxtQueries - state.totalQueries < fuel)
    (hqueries : state.totalQueries ≤ lookupBound maxTxtQueries)
    (hfound : FoundRecords env eRoot maxEnrs state.peers state.seenRecords) :
    ∃ result queries,
      discoverLoop env domain eRoot maxTxtQueries maxEnrs fuel state = some (result, queries) ∧
      queries ≤ lookupBound maxTxtQueries ∧
      ∀ peers, result = .ok peers → state.totalQueries ≤ queries ∧ state.peers <+: peers ∧
        ∃ records, FoundRecords env eRoot maxEnrs peers records := by
  induction fuel generalizing state with
  | zero => exact absurd hfuel (Nat.not_lt_zero _)
  | succ fuel ih =>
    rw [discoverLoop]
    split_ifs with hgo
    · have hbound : state.totalQueries + 64 ≤ lookupBound maxTxtQueries := by
        rw [lookupBound, if_neg (by omega)]
        omega
      have hstep := @discoverStep_spec _ env domain eRoot _ _ hgo.1 hfound
      generalize discoverStep env domain eRoot state = step at hstep
      rcases step with ⟨error | peers, queries⟩ | next
      · exact ⟨_, _, rfl, Nat.le_trans hstep hbound, nofun⟩
      · obtain ⟨records, hpass⟩ := hstep
        refine ⟨_, _, rfl, Nat.le_trans hpass.queries_le hbound, ?_⟩
        rintro _ ⟨⟩
        exact ⟨Nat.le_of_lt hpass.lt_queries, hpass.peers_prefix, records, hpass.found⟩
      · have hlow := hstep.lt_queries
        obtain ⟨result, queries, hloop, hqueries, hpeers⟩ :=
          ih (by omega) (Nat.le_trans hstep.queries_le hbound) hstep.found
        refine ⟨result, queries, hloop, hqueries, fun peers hok => ?_⟩
        obtain ⟨hle, hprefix, hrecords⟩ := hpeers peers hok
        exact ⟨Nat.le_trans (Nat.le_of_lt hlow) hle, hstep.peers_prefix.trans hprefix, hrecords⟩
    · refine ⟨_, _, rfl, hqueries, ?_⟩
      rintro _ ⟨⟩
      exact ⟨Nat.le_refl _, List.prefix_rfl, _, hfound⟩

/-- The walks within smaller limits are the first walks within larger ones. -/
theorem discoverLoop_extends {maxTxtQueries maxTxtQueries' maxEnrs maxEnrs' fuel fuel' : Nat}
    {state : DiscoverState Peer} {peers' : List Peer} {queries' : Nat}
    (hbudget : maxTxtQueries ≤ maxTxtQueries') (henrs : maxEnrs ≤ maxEnrs')
    (hfuel : maxTxtQueries - state.totalQueries < fuel)
    (hfuel' : maxTxtQueries' - state.totalQueries < fuel')
    (hqueries : state.totalQueries ≤ lookupBound maxTxtQueries')
    (hfound : FoundRecords env eRoot maxEnrs' state.peers state.seenRecords)
    (h : discoverLoop env domain eRoot maxTxtQueries' maxEnrs' fuel' state =
      some (.ok peers', queries')) :
    ∃ peers queries, discoverLoop env domain eRoot maxTxtQueries maxEnrs fuel state =
      some (.ok peers, queries) ∧ peers <+: peers' ∧ queries ≤ queries' := by
  induction fuel generalizing fuel' state with
  | zero => exact absurd hfuel (Nat.not_lt_zero _)
  | succ fuel ih =>
    rw [discoverLoop]
    split_ifs with hgo
    · obtain _ | fuel' := fuel'
      · exact absurd hfuel' (Nat.not_lt_zero _)
      rw [discoverLoop, if_pos ⟨by omega, by omega⟩] at h
      have hstep := @discoverStep_spec _ env domain eRoot maxEnrs' _ (by omega) hfound
      have hbound : state.totalQueries + 64 ≤ lookupBound maxTxtQueries' := by
        rw [lookupBound, if_neg (by omega)]
        omega
      generalize discoverStep env domain eRoot state = step at h hstep
      rcases step with outcome | next
      · cases h
        exact ⟨_, _, rfl, List.prefix_rfl, Nat.le_refl _⟩
      · have hlow := hstep.lt_queries
        exact ih (by omega) (by omega) (Nat.le_trans hstep.queries_le hbound) hstep.found h
    · obtain ⟨_, _, hloop, -, hpeers⟩ := discoverLoop_spec hfuel' hqueries hfound
      cases h.symm.trans hloop
      obtain ⟨hle, hprefix, -⟩ := hpeers _ rfl
      exact ⟨_, _, rfl, hprefix, hle⟩

end Walks

section Discovery

variable {Peer : Type} (env : EnrTreeEnv Peer) (rootTxt : String → Option (List String))
  (treeUrl : String)

/-- Discovery fails before its first walk, or it walks from a root that is signed. -/
theorem discoverFromTree_cases :
    (∃ error, ∀ fuel maxTxtQueries maxEnrs,
      discoverFromTree env rootTxt fuel treeUrl maxTxtQueries maxEnrs = some (.error error, 0)) ∨
    ∃ tree root eRoot, parseTree treeUrl = .ok tree ∧
      env.VerifiedRoot tree.publicKeyB32 root eRoot ∧ ∀ fuel maxTxtQueries maxEnrs,
        discoverFromTree env rootTxt fuel treeUrl maxTxtQueries maxEnrs =
          discoverLoop env tree.domain eRoot maxTxtQueries maxEnrs fuel {} := by
  simp only [discoverFromTree]
  cases htree : parseTree treeUrl with
  | error error => exact .inl ⟨error, fun _ _ _ => rfl⟩
  | ok tree =>
    cases htxt : rootTxt tree.domain with
    | none => exact .inl ⟨.dns, fun _ _ _ => by simp only [htxt]⟩
    | some txt =>
      cases hfind : txt.find? (·.startsWith rootPrefix) with
      | none => exact .inl ⟨.missingRoot tree.domain, fun _ _ _ => by simp only [htxt, hfind]⟩
      | some root =>
        cases hroot : parseAndVerifyRoot env root tree.publicKeyB32 with
        | error error => exact .inl ⟨error, fun _ _ _ => by simp only [htxt, hfind, hroot]⟩
        | ok eRoot => exact .inr ⟨tree, root, eRoot, rfl, verifiedRoot_of_parse hroot,
            fun _ _ _ => by simp only [htxt, hfind, hroot]⟩

/-- A signed tree whose one branch leads back to itself. -/
def cyclicEnv : EnrTreeEnv String where
  resolveTxt _ _ := some ["enrtree-branch:A"]
  shuffle _ branches := ⟨branches, .refl _⟩
  keccak256 _ := List.replicate 32 0
  decodeBase32 _ _ := some (List.replicate 12 0)
  decodeBase64 _ := some (List.replicate 64 0)
  rootCaptures _ := some ("A", "L", "1", "S")
  validPublicKey _ := true
  validSignature _ := true
  verifyPrehash _ _ _ := true
  decodeEnrRecord := some

/-- The root of the cycle is the label that every branch has. -/
theorem discoverFromTree_cyclicEnv (resolveTxt : Nat → String → Option (List String))
    (fuel maxTxtQueries maxEnrs : Nat) :
    discoverFromTree { cyclicEnv with resolveTxt } (fun _ => some ["enrtree-root:"]) fuel
        "enrtree://K@d" maxTxtQueries maxEnrs =
      discoverLoop { cyclicEnv with resolveTxt } "d" "A" maxTxtQueries maxEnrs fuel {} := by
  have htree : parseTree "enrtree://K@d" = .ok ⟨"K", "d"⟩ := by decide +kernel
  have hsigned : "enrtree-root:".splitOn " sig" = ["enrtree-root:"] := by
    simp +decide [String.splitOn, String.splitOnAux]
  have hroot : parseAndVerifyRoot { cyclicEnv with resolveTxt } "enrtree-root:" "K" = .ok "A" := by
    rw [parseAndVerifyRoot, if_neg (by decide +kernel), signedComponent, hsigned]
    rfl
  have hfind : ["enrtree-root:"].find? (·.startsWith rootPrefix) = some "enrtree-root:" := by
    decide +kernel
  simp only [discoverFromTree, htree, hfind, hroot]

/-- With larger limits discovery finds the same peers first, if the resolver answers and
    the branches are shuffled as before. -/
theorem discovery_extends {maxTxtQueries maxTxtQueries' maxEnrs maxEnrs' : Nat}
    (extra extra' : Nat) (hbudget : maxTxtQueries ≤ maxTxtQueries') (henrs : maxEnrs ≤ maxEnrs')
    {peers' : List Peer} {queries' : Nat}
    (h : discoverFromTree env rootTxt (maxTxtQueries' + 1 + extra') treeUrl maxTxtQueries'
      maxEnrs' = some (.ok peers', queries')) :
    ∃ peers queries, discoverFromTree env rootTxt (maxTxtQueries + 1 + extra) treeUrl maxTxtQueries
      maxEnrs = some (.ok peers, queries) ∧ peers <+: peers' ∧ queries ≤ queries' := by
  rcases discoverFromTree_cases env rootTxt treeUrl with
    ⟨error, hall⟩ | ⟨tree, _, eRoot, -, -, hall⟩
  · rw [hall] at h
    cases h
  · rw [hall] at h ⊢
    exact discoverLoop_extends hbudget henrs (by dsimp only; omega) (by dsimp only; omega)
      (Nat.zero_le _) (.nil _) h

/-- The first of two records is found within half of the limits. -/
theorem discovery_extends_twoRecords :
    let env : EnrTreeEnv String := { cyclicEnv with
      resolveTxt := fun queries _ => some [if queries = 0 then "enr:x" else "enr:y"] }
    ∃ peers queries, discoverFromTree env (fun _ => some ["enrtree-root:"]) 2 "enrtree://K@d" 1 1 =
      some (.ok peers, queries) ∧ peers <+: ["enr:x", "enr:y"] ∧ queries ≤ 2 :=
  discovery_extends _ _ _ 0 0 (by decide : 1 ≤ 2) (by decide : 1 ≤ 2)
    ((discoverFromTree_cyclicEnv _ _ _ _).trans (by decide +kernel))

end Discovery

end Railgun
