import Railgun.Theory.PoiCache

/-!
# Proofs from the Cache of Proofs of Innocence

The proofs of several commitments share dense trees, one for each tree that a
commitment is in. They are compared with the proofs computed one by one from
the stored leaves. With the invariant of the cache, each of them is a proof of
the commitment asked for and leads to a root that has been accepted.

## Main definitions

* `PoiCache.sparsePoiProof`: The proof of one commitment from the stored leaves.

## Theorems

* `ensureRootsValidated_eq_ok`: Proofs need accepted roots and nothing else.
* `poiMerkleProofAtPosition_eq`, `poiMerkleProofsLoop_eq`: Dense trees give the
  proofs from the stored leaves.
* `acceptedRoots_current`: Accepted roots are current in every run, and proofs
  lead to them.
-/

namespace Railgun

open PoiCache
open PoiCacheRootValidation (accepts rejects)

section Poseidon

variable {poseidon : U256 → U256 → U256}

variable {cache : PoiCache}

theorem ensureRootsValidated_eq_ok (h : RootsTracked poseidon cache) :
    cache.ensureRootsValidated poseidon = .ok () ↔ ∃ roots, cache.validatedRoots = some roots := by
  have hcurrent := computedRoots_eq poseidon h.keptRoots
  rw [ensureRootsValidated, currentRootsReadonly, hcurrent, validatedRoots]
  cases hvalidation : cache.progress.rootValidation with
  | pending =>
    simp [accepts, rejects]
  | validated roots =>
    simp [accepts, h.acceptedRoots roots hvalidation]
  | invalid roots =>
    by_cases hroots : roots = recomputedRoots poseidon cache.forest <;>
      simp [accepts, rejects, hroots]

theorem normalizeTreePosition_of_lt {treeNumber treePosition : Nat} (hnumber : treeNumber < 2 ^ 32)
    (hposition : treePosition < treeLeafCount) :
    normalizeTreePosition treeNumber treePosition = (treeNumber, treePosition) := by
  rw [normalizeTreePosition, Nat.div_eq_of_lt hposition, Nat.zero_mod, Nat.add_zero,
    Nat.mod_eq_of_lt hnumber, Nat.mod_eq_of_lt hposition]

/-- The proof of a commitment at a position, from the stored leaves alone. -/
def PoiCache.sparsePoiProof (cache : PoiCache) (poseidon : U256 → U256 → U256)
    (entry : Bytes32 × PoiCachePosition) : Except PoiCacheError PoiMerkleProof := do
  let proof ← cache.sparsePoiMerkleProof poseidon entry.2 entry.1
  validatePoiMerkleProofLeaf proof entry.1
  return poiMerkleProofFromCache proof

variable {commitment : Bytes32} {position : PoiCachePosition}

theorem sparsePoiMerkleProof_eq (h : RootsTracked poseidon cache)
    (hposition : cache.position commitment = some position) :
    ∃ tree, cache.forest.trees[position.treeNumber]? = some tree ∧
      position.treePosition < treeLeafCount ∧
      cache.sparsePoiMerkleProof poseidon position commitment
        = .ok (tree.prove poseidon position.treePosition) := by
  obtain ⟨hnumber, hlocal, tree, htree⟩ := h.positions commitment position hposition
  refine ⟨tree, htree, hlocal, ?_⟩
  rw [sparsePoiMerkleProof, MerkleForest.prove, normalizeTreePosition_of_lt hnumber hlocal]
  dsimp only
  rw [htree, Option.map_some]

theorem validated_map {δ : Type} (proof : MerkleProof) (commitment : Bytes32) (x : δ) :
    (do
      validatePoiMerkleProofLeaf proof commitment
      return (poiMerkleProofFromCache proof, x) : Except PoiCacheError _)
      = (do
          validatePoiMerkleProofLeaf proof commitment
          return poiMerkleProofFromCache proof : Except PoiCacheError _).map
        fun proof => (proof, x) := by
  cases validatePoiMerkleProofLeaf proof commitment with
  | error error => rfl
  | ok _ => rfl

/-- Whichever way a proof is computed, it is the proof from the stored leaves,
    and the dense trees stay those of the forest. -/
theorem poiMerkleProofAtPosition_eq (h : RootsTracked poseidon cache)
    (hposition : cache.position commitment = some position) (counts : BTreeMap Nat Nat)
    {denseTrees : BTreeMap Nat DenseMerkleTree}
    (hdense : DenseTreesCurrent poseidon ⟨cache.forest, denseTrees⟩) :
    ∃ denseTrees', DenseTreesCurrent poseidon ⟨cache.forest, denseTrees'⟩ ∧
      cache.poiMerkleProofAtPosition poseidon commitment position counts denseTrees
        = (cache.sparsePoiProof poseidon (commitment, position)).map fun proof =>
          (proof, denseTrees') := by
  obtain ⟨tree, htree, -, hsparse⟩ := sparsePoiMerkleProof_eq h hposition
  have hdenseTree : (denseTrees[position.treeNumber]?).getD
      (DenseMerkleTree.fromForestPrefix poseidon cache.forest position.treeNumber treeLeafCount)
      = DenseMerkleTree.fromForestPrefix poseidon cache.forest position.treeNumber
        treeLeafCount := by
    cases hget : denseTrees[position.treeNumber]? with
    | none => rfl
    | some denseTree => exact hdense position.treeNumber denseTree hget
  rw [sparsePoiProof, poiMerkleProofAtPosition, hdenseTree]
  dsimp only
  rw [fromForestPrefix_prove poseidon htree, hsparse]
  split
  · refine ⟨_, denseTreesCurrent_insert poseidon hdense position.treeNumber, ?_⟩
    exact validated_map _ _ _
  · refine ⟨denseTrees, hdense, ?_⟩
    exact validated_map _ _ _

theorem poiMerkleProofsLoop_eq (h : RootsTracked poseidon cache) (counts : BTreeMap Nat Nat) :
    ∀ (positions : List (Bytes32 × PoiCachePosition)) (denseTrees : BTreeMap Nat DenseMerkleTree),
      (∀ entry ∈ positions, cache.position entry.1 = some entry.2) →
      DenseTreesCurrent poseidon ⟨cache.forest, denseTrees⟩ →
      cache.poiMerkleProofsLoop poseidon counts positions denseTrees
        = positions.mapM (cache.sparsePoiProof poseidon) := by
  intro positions
  induction positions with
  | nil => exact fun _ _ _ => rfl
  | cons entry positions ih =>
    intro denseTrees hpositions hdense
    obtain ⟨commitment, position⟩ := entry
    obtain ⟨denseTrees', hdense', hproof⟩ := poiMerkleProofAtPosition_eq h
      (hpositions (commitment, position) List.mem_cons_self) counts hdense
    rw [poiMerkleProofsLoop, hproof, List.mapM_cons]
    cases cache.sparsePoiProof poseidon (commitment, position) with
    | error error => rfl
    | ok proof =>
      have hrest := ih denseTrees' (fun entry hmem => hpositions entry
        (List.mem_cons_of_mem _ hmem)) hdense'
      dsimp only [Except.map, bind, Except.bind]
      rw [hrest]

theorem positionForBlindedCommitment_eq_ok :
    cache.positionForBlindedCommitment commitment = .ok position
      ↔ cache.position commitment = some position := by
  rw [positionForBlindedCommitment]
  cases cache.position commitment with
  | none => simp only [reduceCtorEq]
  | some found => simp only [Except.ok.injEq, Option.some.injEq]

variable {commitments : List Bytes32}

theorem lookup_eq_ok {positions : List (Bytes32 × PoiCachePosition)} :
    (commitments.mapM fun commitment => do
        let position ← cache.positionForBlindedCommitment commitment
        return (commitment, position)) = .ok positions ↔
      commitments = positions.map Prod.fst ∧
        ∀ entry ∈ positions, cache.position entry.1 = some entry.2 := by
  have hentry : ∀ (commitment : Bytes32) (entry : Bytes32 × PoiCachePosition),
      (do
        let position ← cache.positionForBlindedCommitment commitment
        return (commitment, position)) = Except.ok (ε := PoiCacheError) entry ↔
        commitment = entry.1 ∧ cache.position entry.1 = some entry.2 := by
    intro commitment entry
    rw [bind_eq_ok]
    constructor
    · rintro ⟨position, hposition, heq⟩
      rw [← Except.ok.inj heq]
      exact ⟨rfl, positionForBlindedCommitment_eq_ok.mp hposition⟩
    · rintro ⟨rfl, hposition⟩
      exact ⟨entry.2, positionForBlindedCommitment_eq_ok.mpr hposition, rfl⟩
  rw [mapM_eq_ok]
  simp only [hentry]
  constructor
  · intro h
    refine ⟨?_, fun entry hmem => ?_⟩
    · rw [← map_eq_of_forall₂ (μ := id) (h.imp fun _ _ hrel => hrel.1), List.map_id]
    · obtain ⟨_, _, hrel⟩ := forall₂_exists_left h hmem
      exact hrel.2
  · rintro ⟨rfl, hpositions⟩
    rw [List.forall₂_map_left_iff]
    exact List.forall₂_same.mpr fun entry hmem => ⟨rfl, hpositions entry hmem⟩

/-- The proofs of some commitments are the proofs from the stored leaves, once
    roots have been accepted. -/
theorem poiMerkleProofs_eq_ok (h : RootsTracked poseidon cache) {proofs : List PoiMerkleProof} :
    cache.poiMerkleProofs poseidon commitments = .ok proofs ↔
      (∃ roots, cache.validatedRoots = some roots) ∧
        ∃ positions, commitments = positions.map Prod.fst ∧
          (∀ entry ∈ positions, cache.position entry.1 = some entry.2) ∧
          List.Forall₂ (fun entry proof => cache.sparsePoiProof poseidon entry = .ok proof)
            positions proofs := by
  have hloop : ∀ positions : List (Bytes32 × PoiCachePosition),
      (∀ entry ∈ positions, cache.position entry.1 = some entry.2) →
      cache.poiMerkleProofsLoop poseidon (denseTreeCounts positions) positions ∅
        = positions.mapM (cache.sparsePoiProof poseidon) := fun positions hpositions =>
    poiMerkleProofsLoop_eq h _ positions ∅ hpositions
      (new_denseTreesCurrent poseidon cache.forest)
  rw [poiMerkleProofs, bind_eq_ok, ← ensureRootsValidated_eq_ok h]
  constructor
  · rintro ⟨⟨⟩, hensure, hrest⟩
    obtain ⟨positions, hlookup, hproofs⟩ := bind_eq_ok.mp hrest
    obtain ⟨hcommitments, hpositions⟩ := lookup_eq_ok.mp hlookup
    rw [hloop positions hpositions, mapM_eq_ok] at hproofs
    exact ⟨hensure, positions, hcommitments, hpositions, hproofs⟩
  · rintro ⟨hensure, positions, hcommitments, hpositions, hproofs⟩
    refine ⟨(), hensure, bind_eq_ok.mpr ⟨positions, lookup_eq_ok.mpr ⟨hcommitments, hpositions⟩,
      ?_⟩⟩
    rw [hloop positions hpositions, mapM_eq_ok]
    exact hproofs

/-- A commitment has a proof when it is what is stored at its position. The
    proof leads to the root recomputed from the leaves of its tree. -/
theorem sparsePoiProof_eq_ok (h : RootsTracked poseidon cache)
    (hposition : cache.position commitment = some position) {proof : PoiMerkleProof} :
    cache.sparsePoiProof poseidon (commitment, position) = .ok proof ↔
      ∃ tree, cache.forest.trees[position.treeNumber]? = some tree ∧
        (tree.prove poseidon position.treePosition).leaf = commitment ∧
        proof = poiMerkleProofFromCache (tree.prove poseidon position.treePosition) := by
  obtain ⟨tree, htree, -, hsparse⟩ := sparsePoiMerkleProof_eq h hposition
  rw [sparsePoiProof, hsparse, htree]
  simp only [Option.some.injEq, exists_eq_left', bind, Except.bind, validatePoiMerkleProofLeaf]
  by_cases hleaf : (tree.prove poseidon position.treePosition).leaf = commitment
  · simp [hleaf, pure, Except.pure, eq_comm]
  · simp [hleaf]

theorem prove_sound (tree : MerkleTree) {position : Nat} (h : position < treeLeafCount) :
    (tree.prove poseidon position).leaf = storedLeaf tree.leaves position ∧
      (tree.prove poseidon position).leafIndex = position ∧
      (tree.prove poseidon position).root = completeRoot poseidon (storedLeaf tree.leaves) ∧
      foldPath poseidon (tree.prove poseidon position).leaf (pathBits position treeDepth)
        (tree.prove poseidon position).pathElements = (tree.prove poseidon position).root := by
  have hproof := proveWithLeafCount_eq poseidon tree position treeLeafCount
  rw [Nat.mod_eq_of_lt h, Nat.min_self] at hproof
  rw [MerkleTree.prove, hproof]
  refine ⟨prefixLeaf_of_lt h _, rfl, completeRoot_prefixLeaf_full poseidon _, ?_⟩
  exact foldPath_completeProof poseidon _ h

theorem sparsePoiProof_sound (h : RootsTracked poseidon cache) {proof : PoiMerkleProof}
    (hposition : cache.position commitment = some position)
    (hproof : cache.sparsePoiProof poseidon (commitment, position) = .ok proof)
    {roots : BTreeMap Nat Bytes32} (hroots : roots = recomputedRoots poseidon cache.forest) :
    proof.leaf = commitment ∧ proof.indices.toNat = position.treePosition ∧
      roots[position.treeNumber]? = some proof.root ∧
      foldPath poseidon proof.leaf (pathBits proof.indices.toNat treeDepth) proof.elements
        = proof.root := by
  obtain ⟨tree, htree, hleaf, rfl⟩ := (sparsePoiProof_eq_ok h hposition).mp hproof
  obtain ⟨-, hlocal, -⟩ := h.positions commitment position hposition
  obtain ⟨-, hindex, hroot, hfold⟩ := @prove_sound poseidon tree _ hlocal
  have hindices : (BitVec.ofNat 256 (tree.prove poseidon position.treePosition).leafIndex).toNat
      = position.treePosition := by
    rw [hindex, BitVec.toNat_ofNat, Nat.mod_eq_of_lt (lt_trans hlocal (by decide))]
  rw [poiMerkleProofFromCache, hindices, hroots, recomputedRoots,
    Std.ExtTreeMap.getElem?_map, htree, Option.map_some, hroot]
  exact ⟨hleaf, rfl, rfl, hroot ▸ hfold⟩

/-- Commitments that are stored at their positions have proofs once roots have
    been accepted. -/
theorem poiMerkleProofs_isOk (h : RootsTracked poseidon cache)
    (hroots : ∃ roots, cache.validatedRoots = some roots)
    (hstored : ∀ commitment ∈ commitments, ∃ position, cache.position commitment = some position ∧
      cache.forest.leafAt position.treeNumber position.treePosition = some commitment) :
    ∃ proofs, cache.poiMerkleProofs poseidon commitments = .ok proofs := by
  suffices hlists : ∃ positions proofs, commitments = positions.map Prod.fst ∧
      (∀ entry ∈ positions, cache.position entry.1 = some entry.2) ∧
      List.Forall₂ (fun entry proof => cache.sparsePoiProof poseidon entry = .ok proof)
        positions proofs by
    obtain ⟨positions, proofs, hcommitments, hpositions, hproofs⟩ := hlists
    exact ⟨proofs, (poiMerkleProofs_eq_ok h).mpr
      ⟨hroots, positions, hcommitments, hpositions, hproofs⟩⟩
  induction commitments with
  | nil => exact ⟨[], [], rfl, nofun, List.Forall₂.nil⟩
  | cons commitment commitments ih =>
    obtain ⟨positions, proofs, rfl, hpositions, hproofs⟩ :=
      ih fun commitment hmem => hstored commitment (List.mem_cons_of_mem _ hmem)
    obtain ⟨position, hposition, hleaf⟩ := hstored commitment List.mem_cons_self
    obtain ⟨-, hlocal, tree, htree⟩ := h.positions commitment position hposition
    rw [MerkleForest.leafAt, htree, Option.bind_some] at hleaf
    have hproof : (tree.prove poseidon position.treePosition).leaf = commitment := by
      rw [(prove_sound tree hlocal).1, storedLeaf, hleaf, Option.getD_some]
    refine ⟨(commitment, position) :: positions, _ :: proofs, rfl, ?_,
      List.Forall₂.cons ((sparsePoiProof_eq_ok h hposition).mpr ⟨tree, htree, hproof, rfl⟩)
        hproofs⟩
    intro entry hmem
    rcases List.mem_cons.mp hmem with rfl | htail
    · exact hposition
    · exact hpositions entry htail

/-- After any run from an empty cache, with operations that failed part way,
    accepted roots are those recomputed from the stored leaves. Proofs are of the
    commitments asked for, in order, and each leads to the accepted root of its
    tree. -/
theorem acceptedRoots_current (poseidon : U256 → U256 → U256) (externals : PoiCacheExternals)
    (identity : PoiCacheIdentity) (operations : List PoiCacheOperation) (cache : PoiCache)
    (hrun : PoiCacheOperation.run poseidon externals operations (PoiCache.new identity)
      = some cache) :
    (∀ roots, cache.validatedRoots = some roots →
        roots = recomputedRoots poseidon cache.forest) ∧
      ∀ commitments proofs, cache.poiMerkleProofs poseidon commitments = .ok proofs →
        ∃ roots, cache.validatedRoots = some roots ∧
          List.Forall₂ (fun commitment proof =>
            proof.leaf = commitment ∧
              foldPath poseidon proof.leaf (pathBits proof.indices.toNat treeDepth) proof.elements
                = proof.root ∧
              ∃ position, cache.position commitment = some position ∧
                proof.indices.toNat = position.treePosition ∧
                roots[position.treeNumber]? = some proof.root)
            commitments proofs := by
  have htracked := run_tracked externals operations (rootsTracked_new identity) hrun
  have hcurrent : ∀ roots, cache.validatedRoots = some roots →
      roots = recomputedRoots poseidon cache.forest := by
    intro roots hroots
    refine htracked.acceptedRoots roots ?_
    rw [validatedRoots] at hroots
    cases hvalidation : cache.progress.rootValidation with
    | validated accepted =>
      rw [hvalidation] at hroots
      rw [Option.some.inj hroots]
    | pending | invalid =>
      rw [hvalidation] at hroots
      cases hroots
  refine ⟨hcurrent, fun commitments proofs hproofs => ?_⟩
  obtain ⟨⟨roots, hroots⟩, positions, rfl, hpositions, hsparse⟩ :=
    (poiMerkleProofs_eq_ok htracked).mp hproofs
  refine ⟨roots, hroots, ?_⟩
  rw [List.forall₂_map_left_iff]
  refine forall₂_imp_mem hsparse fun entry proof hmem _ hproof => ?_
  obtain ⟨hleaf, hindices, hroot, hfold⟩ := sparsePoiProof_sound htracked (hpositions entry hmem)
    hproof (hcurrent roots hroots)
  exact ⟨hleaf, hfold, entry.2, hpositions entry hmem, hindices, hroot⟩

end Poseidon

/-- Nothing is verified and no digits are read. -/
def noExternals : PoiCacheExternals where
  verifyPoiEvent := fun _ _ => .ok ()
  verifyBlockedShield := fun _ _ => .ok ()
  fromStrRadix := fun _ _ => none

/-- Two leaves are stored and accepted. A third is stored at the last index,
    where the cursor overflows, and the roots are accepted again. -/
def overflowingRun : List PoiCacheOperation :=
  [.applyPoiLeaves 0 [7, 8], .acceptCurrentRoots, .applyPoiLeaves (2 ^ 64 - 1) [9],
    .acceptCurrentRoots]

theorem overflowingRun_stored :
    (PoiCacheOperation.run (fun a b => a + 2 * b) noExternals overflowingRun
        (PoiCache.new someIdentity)).any
      (fun cache => cache.validatedRoots.isSome && [9, 8].all fun commitment =>
        (cache.position commitment).any fun position => decide
          (cache.forest.leafAt position.treeNumber position.treePosition = some commitment))
      = true := by
  decide +kernel

/-- The leaf that overflowed the cursor and the one before it have proofs
    against the roots accepted last. -/
theorem acceptedRoots_current_overflowingRun :
    ∃ cache proofs roots,
      PoiCacheOperation.run (fun a b => a + 2 * b) noExternals overflowingRun
        (PoiCache.new someIdentity) = some cache ∧
      cache.poiMerkleProofs (fun a b => a + 2 * b) [9, 8] = .ok proofs ∧
      cache.validatedRoots = some roots ∧
      roots = recomputedRoots (fun a b => a + 2 * b) cache.forest ∧
      List.Forall₂ (fun (commitment : Bytes32) proof =>
        proof.leaf = commitment ∧
          foldPath (fun a b => a + 2 * b) proof.leaf (pathBits proof.indices.toNat treeDepth)
            proof.elements = proof.root) [9, 8] proofs := by
  obtain ⟨cache, hrun, hstored⟩ := (Option.any_eq_true _ _).mp overflowingRun_stored
  rw [Bool.and_eq_true, List.all_eq_true] at hstored
  obtain ⟨hcurrent, hsound⟩ := acceptedRoots_current (fun a b => a + 2 * b) noExternals
    someIdentity overflowingRun cache hrun
  obtain ⟨proofs, hproofs⟩ := poiMerkleProofs_isOk
    (run_tracked noExternals overflowingRun (rootsTracked_new someIdentity) hrun)
    (Option.isSome_iff_exists.mp hstored.1) (fun commitment hmem => by
      obtain ⟨position, hposition, hleaf⟩ := (Option.any_eq_true _ _).mp
        (hstored.2 commitment hmem)
      exact ⟨position, hposition, of_decide_eq_true hleaf⟩)
  obtain ⟨roots, hroots, hall⟩ := hsound [9, 8] proofs hproofs
  exact ⟨cache, proofs, roots, hrun, hproofs, hroots, hcurrent roots hroots,
    hall.imp fun _ _ hproof => ⟨hproof.1, hproof.2.1⟩⟩

end Railgun
