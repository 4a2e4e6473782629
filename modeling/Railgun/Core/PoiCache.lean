import Railgun.Core.Merkle
import Railgun.Lib.Stateful

/-!
# The Cache of Proofs of Innocence

A list of proofs of innocence is a list of signed events, one blinded
commitment each, and a forest that stores the same commitments as leaves. The
cache holds the forest together with the status and the position of every
commitment, the blocked shields of the list, and how far it has been
synchronized. It answers with proofs once the roots of its forest have been
accepted.

Methods change the cache step by step and may fail on the way, and what they
have changed by then stays changed. They are written as computations that keep
their state when they fail.

Thirty-two bytes are a word, read big-endian, so the conversions between the
two are not written. Unsigned 64-bit indices are naturals with the source's
checked additions. The parsing of digits belongs to the word library and is a
parameter.

## Main definitions

* `PoiCache`: The forest, the statuses, the positions and the progress.
* `PoiCacheRootValidation`: Whether the roots of the forest have been accepted.
* `PoiCache.applyPoiEvents`, `PoiCache.applyPoiLeaves`,
  `PoiCache.applyJournalDelta`, `PoiCache.applyVerifiedArtifactEvents`: The ways
  events and leaves get into the cache.
* `PoiCache.acceptCurrentRoots`: Accept the roots of the forest as it is.
* `PoiCache.poiMerkleProofs`: The proofs of some commitments.
-/

namespace Railgun

/-- The list a cache is for. -/
structure PoiCacheIdentity where
  chainType : Nat
  chainId : Nat
  txidVersion : String
  listKey : Bytes32
deriving DecidableEq, Repr

/-- Where a commitment is stored. -/
structure PoiCachePosition where
  globalIndex : Nat
  treeNumber : Nat
  treePosition : Nat
deriving DecidableEq, Repr

/-- The status of a blinded commitment. -/
inductive PoiStatus where
  | valid
  | shieldBlocked
  | proofSubmitted
  | missing
  | unknown
deriving DecidableEq, Repr

/-- What an event is about. -/
inductive PoiEventType where
  | shield
  | transact
  | unshield
  | legacyTransact
deriving DecidableEq, Repr

/-- An event as its list has signed it. -/
structure SignedPoiEvent where
  index : Nat
  blindedCommitment : Bytes32
  signature : String
  eventType : PoiEventType
deriving DecidableEq, Repr

/-- An event as a node answers with it. -/
structure PoiSyncedListEvent where
  signedPoiEvent : SignedPoiEvent
  validatedMerkleroot : String
deriving DecidableEq, Repr

/-- An event of an artifact. -/
structure SnapshotEvent where
  eventIndex : Nat
  blindedCommitment : Bytes32
  signature : List UInt8
  eventType : PoiEventType
deriving DecidableEq, Repr

/-- A shield that a list refuses. -/
structure BlockedShield where
  commitmentHash : String
  blindedCommitment : String
  blockReason : Option String
  signature : String
deriving DecidableEq, Repr

/-- How far a request got before its transport failed. -/
inductive PoiRpcTransportPhase where
  | send
  | responseBody
deriving DecidableEq, Repr

/-- Why a node did not answer. The errors of other libraries are left out. -/
inductive PoiRpcError where
  | post (phase : PoiRpcTransportPhase)
  | httpStatus (status : Nat)
  | jsonDecode
  | missingResult
  | jsonRpc (code : Int) (message : String)
  | txidMerklerootNotFound
deriving DecidableEq, Repr

/-- Why a signature was not accepted. -/
inductive VerifyError where
  | publicKey
  | signatureHex
  | signature
deriving DecidableEq, Repr

/-- Every way a method of the cache fails. -/
inductive PoiCacheError where
  | rpc (error : PoiRpcError)
  | merkle (error : SyncError)
  | verify (error : VerifyError)
  | unsupportedJournalDeltaVersion (version : Nat)
  | invalidHex (field value : String)
  | invalidPageSize
  | rangeOverflow
  | syncCursorMismatch (nextEventIndex nextLeafIndex : Nat)
  | eventPageTooLarge (startIndex endIndex requested actual : Nat)
  | blockedShieldPageTooLarge (startIndex endIndex requested actual : Nat)
  | blockedShieldLimitExceeded (limit : Nat)
  | nonContiguousEvent (expected actual : Nat)
  | leafPageSizeMismatch (startIndex endIndex expected actual : Nat)
  | leafWithoutEvent (index : Nat)
  | eventLeafMismatch (index : Nat)
  | missingEventLeaf (index : Nat)
  | journalDeltaIdentityMismatch
  | journalDeltaCursorMismatch
      (eventStartCursor leafStartCursor nextEventIndex nextLeafIndex : Nat)
  | journalDeltaEndCursorMismatch
      (eventEndCursor leafEndCursor nextEventIndex nextLeafIndex : Nat)
  | rootValidationRequired
  | invalidRoots
  | missingCommitment (blindedCommitment : Bytes32)
  | missingJournalReplayRoot (treeNumber : Nat)
  | leafMismatch (blindedCommitment leaf : Bytes32)
deriving DecidableEq, Repr

/-- Whether the node has accepted the roots of the cache. -/
inductive PoiCacheRootValidation where
  | pending
  | validated (roots : BTreeMap Nat Bytes32)
  | invalid (roots : BTreeMap Nat Bytes32)

/-- Exactly these roots have been accepted. -/
def PoiCacheRootValidation.accepts (validation : PoiCacheRootValidation)
    (roots : BTreeMap Nat Bytes32) : Bool :=
  match validation with
  | .validated acceptedRoots => acceptedRoots = roots
  | _ => false

/-- Exactly these roots have been rejected. -/
def PoiCacheRootValidation.rejects (validation : PoiCacheRootValidation)
    (roots : BTreeMap Nat Bytes32) : Bool :=
  match validation with
  | .invalid rejectedRoots => rejectedRoots = roots
  | _ => false

/-- How far the cache has been synchronized. -/
structure PoiCacheSyncProgress where
  nextEventIndex : Nat := 0
  nextLeafIndex : Nat := 0
  blockedShieldsSynced : Bool := false
  rootValidation : PoiCacheRootValidation := .pending

/-- The cached data of one list. -/
structure PoiCache where
  identity : PoiCacheIdentity
  progress : PoiCacheSyncProgress := {}
  forest : MerkleForest := {}
  statusByBlindedCommitment : BTreeMap Bytes32 PoiStatus := ∅
  positionByBlindedCommitment : BTreeMap Bytes32 PoiCachePosition := ∅
  blockedShieldsByBlindedCommitment : BTreeMap Bytes32 BlockedShield := ∅

/-- An event of a journal: its index and its commitment. -/
structure PoiCacheJournalEvent where
  eventIndex : Nat
  blindedCommitment : Bytes32
deriving DecidableEq, Repr

/-- The version of deltas that is read. -/
def poiCacheJournalDeltaVersion : Nat := 1

/-- The events and leaves a cache has been extended by. -/
structure PoiCacheJournalDelta where
  version : Nat
  identity : PoiCacheIdentity
  eventStartCursor : Nat
  eventEndCursor : Nat
  leafStartCursor : Nat
  leafEndCursor : Nat
  events : List PoiCacheJournalEvent
  leaves : List Bytes32
deriving DecidableEq, Repr

/-- A proof as it is submitted. -/
structure PoiMerkleProof where
  leaf : U256
  elements : List U256
  indices : U256
  root : U256
deriving DecidableEq, Repr

/-- A method of the cache. -/
abbrev CacheM (α : Type) := Stateful PoiCache PoiCacheError α

/-- Addition of unsigned 64-bit words that fails when it does not fit. -/
def checkedAdd (a b : Nat) : Except PoiCacheError Nat :=
  if a + b < 2 ^ 64 then .ok (a + b) else .error .rangeOverflow

/-- The index after an index, if there is one. -/
def nextIndex (index : Nat) : Except PoiCacheError Nat := checkedAdd index 1

/-- The word a string of hexadecimal digits stands for, with or without its
    marker. -/
def parseU256Hex (fromStrRadix : String → Nat → Option U256) (value field : String) :
    Except PoiCacheError U256 :=
  let digits :=
    match value.toList with
    | '0' :: 'x' :: rest => String.ofList rest
    | _ => value
  if 64 < digits.utf8ByteSize then
    .error (.invalidHex field value)
  else if digits.isEmpty then
    .ok 0
  else
    match fromStrRadix digits 16 with
    | some word => .ok word
    | none => .error (.invalidHex field value)

/-- The word of a field with a fixed number of digits. -/
def parseFixedHex := parseU256Hex

namespace PoiCache

/-- An empty cache. -/
def new (identity : PoiCacheIdentity) : PoiCache := { identity := identity }

/-- The place of a commitment, if it is known. -/
def position (cache : PoiCache) (blindedCommitment : Bytes32) : Option PoiCachePosition :=
  cache.positionByBlindedCommitment[blindedCommitment]?

/-- The leaf stored for an index. -/
def commitmentAtGlobalIndex (cache : PoiCache) (globalIndex : Nat) : Option Bytes32 :=
  let (treeNumber, treePosition) := normalizeTreePosition 0 globalIndex
  cache.forest.leafAt treeNumber treePosition

/-- The status of a commitment, which is missing if none is known. -/
def status (cache : PoiCache) (blindedCommitment : Bytes32) : PoiStatus :=
  (cache.statusByBlindedCommitment[blindedCommitment]?).getD .missing

/-- The roots accepted for the forest as it is, if any. -/
def validatedRoots (cache : PoiCache) : Option (BTreeMap Nat Bytes32) :=
  match cache.progress.rootValidation with
  | .validated roots => some roots
  | .pending => none
  | .invalid _ => none

/-- Note whether the roots have been accepted. -/
def setRootValidation (cache : PoiCache) (rootValidation : PoiCacheRootValidation) : PoiCache :=
  { cache with progress := { cache.progress with rootValidation := rootValidation } }

/-- Note the status of a commitment. -/
def setStatus (cache : PoiCache) (blindedCommitment : Bytes32) (status : PoiStatus) : PoiCache :=
  { cache with
    statusByBlindedCommitment := cache.statusByBlindedCommitment.insert blindedCommitment status }

/-- Note the place of a commitment. -/
def setPosition (cache : PoiCache) (blindedCommitment : Bytes32) (position : PoiCachePosition) :
    PoiCache :=
  { cache with
    positionByBlindedCommitment :=
      cache.positionByBlindedCommitment.insert blindedCommitment position }

/-- Raise the event cursor to at least an index. -/
def raiseNextEventIndex (cache : PoiCache) (index : Nat) : PoiCache :=
  { cache with
    progress := { cache.progress with nextEventIndex := max cache.progress.nextEventIndex index } }

/-- Raise the leaf cursor to at least an index. -/
def raiseNextLeafIndex (cache : PoiCache) (index : Nat) : PoiCache :=
  { cache with
    progress := { cache.progress with nextLeafIndex := max cache.progress.nextLeafIndex index } }

/-- Store a leaf. That roots were accepted is forgotten first, also when the
    forest then refuses the leaf. -/
def insertLeaf (update : MerkleTreeUpdate) : CacheM Unit := do
  modify fun cache => cache.setRootValidation .pending
  let cache ← get
  let forest ← ofExcept ((cache.forest.insertLeaf update).mapError .merkle)
  modify fun cache => { cache with forest := forest }

/-- Apply an event: its commitment is valid, and the cursor is past it. -/
def applyEventCommitment (eventIndex : Nat) (blindedCommitment : Bytes32) : CacheM Unit := do
  modify fun cache => cache.setStatus blindedCommitment .valid
  let next ← ofExcept (nextIndex eventIndex)
  modify fun cache => cache.raiseNextEventIndex next

/-- Apply the events of a page, and count them. -/
def applyPoiEvents (events : List PoiSyncedListEvent) : CacheM Nat := do
  events.foldlM (fun _ event => applyEventCommitment event.signedPoiEvent.index
    event.signedPoiEvent.blindedCommitment) ()
  return events.length

/-- Store a leaf with its position and its status. -/
def storeCommitment (globalIndex : Nat) (leaf : U256) : CacheM Unit := do
  let (treeNumber, treePosition) := normalizeTreePosition 0 globalIndex
  insertLeaf { treeNumber := treeNumber, treePosition := treePosition, hash := leaf }
  modify fun cache => cache.setPosition leaf
    { globalIndex := globalIndex, treeNumber := treeNumber, treePosition := treePosition }
  modify fun cache => cache.setStatus leaf .valid

/-- Store the leaves that are not zero, and count them. -/
def applyPoiLeaves (startIndex : Nat) (leaves : List U256) : CacheM Nat :=
  leaves.zipIdx.foldlM (fun inserted (entry : U256 × Nat) => do
    let globalIndex ← ofExcept (checkedAdd startIndex entry.2)
    let inserted ← (if entry.1 ≠ 0 then do
        storeCommitment globalIndex entry.1
        pure (inserted + 1)
      else
        pure inserted)
    let next ← ofExcept (nextIndex globalIndex)
    modify fun cache => cache.raiseNextLeafIndex next
    return inserted) 0

/-- The commitments of a delta's events by index. The indices have to follow
    each other. -/
def journalEventCommitments (delta : PoiCacheJournalDelta) :
    Except PoiCacheError (BTreeMap Nat Bytes32) := do
  let (commitments, _) ← delta.events.foldlM
    (fun (state : BTreeMap Nat Bytes32 × Nat) event =>
      if event.eventIndex ≠ state.2 then
        .error (.nonContiguousEvent state.2 event.eventIndex)
      else do
        let next ← nextIndex state.2
        return (state.1.insert event.eventIndex event.blindedCommitment, next))
    (∅, delta.eventStartCursor)
  return commitments

/-- A leaf, with its place in the delta, takes the commitment of the event with its
    index. -/
def takeLeaf (leafStartCursor : Nat) (left : BTreeMap Nat Bytes32) (entry : Bytes32 × Nat) :
    Except PoiCacheError (BTreeMap Nat Bytes32) := do
  let index ← checkedAdd leafStartCursor entry.2
  match left[index]? with
  | none => .error (.leafWithoutEvent index)
  | some expected =>
    if entry.1 ≠ expected then .error (.eventLeafMismatch index)
    else return left.erase index

/-- Every leaf of a delta is the commitment of the event with its index, and no
    event is left. -/
def checkJournalLeaves (delta : PoiCacheJournalDelta) (commitments : BTreeMap Nat Bytes32) :
    Except PoiCacheError Unit := do
  let left ← delta.leaves.zipIdx.foldlM (takeLeaf delta.leafStartCursor) commitments
  match left.minKey? with
  | some index => .error (.missingEventLeaf index)
  | none => .ok ()

/-- A delta is of this version and this list, starts at the cursors, and its
    events and leaves agree. -/
def checkJournalDelta (cache : PoiCache) (delta : PoiCacheJournalDelta) :
    Except PoiCacheError Unit :=
  if delta.version ≠ poiCacheJournalDeltaVersion then
    .error (.unsupportedJournalDeltaVersion delta.version)
  else if delta.identity ≠ cache.identity then
    .error .journalDeltaIdentityMismatch
  else if delta.eventStartCursor ≠ cache.progress.nextEventIndex ∨
      delta.leafStartCursor ≠ cache.progress.nextLeafIndex then
    .error (.journalDeltaCursorMismatch delta.eventStartCursor delta.leafStartCursor
      cache.progress.nextEventIndex cache.progress.nextLeafIndex)
  else do
    let expectedEventEnd ← checkedAdd delta.eventStartCursor delta.events.length
    let expectedLeafEnd ← checkedAdd delta.leafStartCursor delta.leaves.length
    if expectedEventEnd ≠ delta.eventEndCursor ∨ expectedLeafEnd ≠ delta.leafEndCursor then
      .error (.journalDeltaEndCursorMismatch delta.eventEndCursor delta.leafEndCursor
        expectedEventEnd expectedLeafEnd)
    else do
      let commitments ← journalEventCommitments delta
      checkJournalLeaves delta commitments

/-- Extend the cache by a delta. -/
def applyJournalDelta (delta : PoiCacheJournalDelta) : CacheM Unit := do
  let cache ← get
  ofExcept (cache.checkJournalDelta delta)
  delta.events.foldlM
    (fun _ event => applyEventCommitment event.eventIndex event.blindedCommitment) ()
  let _ ← applyPoiLeaves delta.leafStartCursor delta.leaves
  let cache ← get
  if cache.progress.nextEventIndex ≠ delta.eventEndCursor ∨
      cache.progress.nextLeafIndex ≠ delta.leafEndCursor then
    throw (.journalDeltaEndCursorMismatch delta.eventEndCursor delta.leafEndCursor
      cache.progress.nextEventIndex cache.progress.nextLeafIndex)

/-- Store the commitments of verified events, zero or not, and count them. -/
def applyVerifiedArtifactEvents (events : List SnapshotEvent) : CacheM Nat :=
  events.foldlM (fun inserted event => do
    storeCommitment event.eventIndex event.blindedCommitment
    let next ← ofExcept (nextIndex event.eventIndex)
    modify fun cache => cache.raiseNextEventIndex next
    let next ← ofExcept (nextIndex event.eventIndex)
    modify fun cache => cache.raiseNextLeafIndex next
    return inserted + 1) 0

/-- Add blocked shields. A commitment that is valid stays valid. -/
def applyBlockedShields (fromStrRadix : String → Nat → Option U256)
    (blockedShields : List BlockedShield) : CacheM Nat := do
  blockedShields.foldlM (fun _ blockedShield => do
    let blindedCommitment ← ofExcept (parseFixedHex fromStrRadix blockedShield.blindedCommitment
      "blockedShield.blindedCommitment")
    modify fun cache => { cache with
      blockedShieldsByBlindedCommitment :=
        cache.blockedShieldsByBlindedCommitment.insert blindedCommitment blockedShield }
    modify fun cache =>
      if cache.status blindedCommitment ≠ .valid then
        cache.setStatus blindedCommitment .shieldBlocked
      else
        cache) ()
  modify fun cache =>
    { cache with progress := { cache.progress with blockedShieldsSynced := true } }
  return blockedShields.length

/-- Whether two caches have the same blocked shields. -/
def sameBlockedShields (cache other : PoiCache) : Bool :=
  decide (cache.blockedShieldsByBlindedCommitment = other.blockedShieldsByBlindedCommitment)

/-- Forget the status of a commitment that was only blocked. -/
def clearBlocked (cache : PoiCache) (blindedCommitment : Bytes32) : PoiCache :=
  if cache.status blindedCommitment = .shieldBlocked then
    { cache with
      statusByBlindedCommitment := cache.statusByBlindedCommitment.erase blindedCommitment }
  else
    cache

/-- Put other blocked shields in place of the present ones. -/
def replaceBlockedShields (fromStrRadix : String → Nat → Option U256)
    (blockedShields : List BlockedShield) : CacheM Nat := do
  let previous := (← get).blockedShieldsByBlindedCommitment.keys
  modify fun cache => { cache with blockedShieldsByBlindedCommitment := ∅ }
  modify fun cache => previous.foldl clearBlocked cache
  applyBlockedShields fromStrRadix blockedShields

section Poseidon

variable (poseidon : U256 → U256 → U256)

/-- Compute and keep the roots of the forest. -/
def currentRoots : CacheM (BTreeMap Nat Bytes32) := do
  modify fun cache => { cache with forest := cache.forest.computeRoots poseidon }
  return (← get).forest.roots

/-- The roots of the forest, without keeping them. -/
def currentRootsReadonly (cache : PoiCache) : BTreeMap Nat Bytes32 :=
  cache.forest.computedRoots poseidon

/-- Note that the roots have been accepted, and return them. -/
def acceptCurrentRoots : CacheM (BTreeMap Nat Bytes32) := do
  let roots ← currentRoots poseidon
  modify fun cache => cache.setRootValidation (.validated roots)
  return roots

/-- Proofs are only given against roots that have been accepted. -/
def ensureRootsValidated (cache : PoiCache) : Except PoiCacheError Unit :=
  let roots := cache.currentRootsReadonly poseidon
  if cache.progress.rootValidation.accepts roots then
    .ok ()
  else if cache.progress.rootValidation.rejects roots then
    .error .invalidRoots
  else
    .error .rootValidationRequired

/-- The place of a commitment, which has to be known. -/
def positionForBlindedCommitment (cache : PoiCache) (blindedCommitment : Bytes32) :
    Except PoiCacheError PoiCachePosition :=
  match cache.position blindedCommitment with
  | some position => .ok position
  | none => .error (.missingCommitment blindedCommitment)

/-- How many of the positions are in each tree. -/
def denseTreeCounts (positions : List (Bytes32 × PoiCachePosition)) : BTreeMap Nat Nat :=
  positions.foldl
    (fun counts entry => counts.insert entry.2.treeNumber
      ((counts[entry.2.treeNumber]?).getD 0 + 1)) ∅

/-- The number of positions of a tree from which on their proofs are read off
    its layers. -/
def densePoiProofMinCommitmentsPerTree : Nat := 1

/-- The proof of a commitment at its place. -/
def sparsePoiMerkleProof (cache : PoiCache) (position : PoiCachePosition)
    (blindedCommitment : Bytes32) : Except PoiCacheError MerkleProof :=
  match cache.forest.prove poseidon position.treeNumber position.treePosition with
  | some proof => .ok proof
  | none => .error (.missingCommitment blindedCommitment)

/-- A proof is of the commitment it was asked for. -/
def validatePoiMerkleProofLeaf (proof : MerkleProof) (blindedCommitment : Bytes32) :
    Except PoiCacheError Unit :=
  if proof.leaf ≠ blindedCommitment then
    .error (.leafMismatch blindedCommitment proof.leaf)
  else
    .ok ()

/-- A proof in the form it is submitted in. -/
def poiMerkleProofFromCache (proof : MerkleProof) : PoiMerkleProof where
  leaf := proof.leaf
  elements := proof.pathElements
  indices := BitVec.ofNat 256 proof.leafIndex
  root := proof.root

/-- The proof of one commitment, and the dense trees built so far. -/
def poiMerkleProofAtPosition (cache : PoiCache) (blindedCommitment : Bytes32)
    (position : PoiCachePosition) (denseTreeCounts : BTreeMap Nat Nat)
    (denseTrees : BTreeMap Nat DenseMerkleTree) :
    Except PoiCacheError (PoiMerkleProof × BTreeMap Nat DenseMerkleTree) := do
  let (proof, denseTrees) ←
    (if denseTreeCounts[position.treeNumber]?.any
        (fun count => densePoiProofMinCommitmentsPerTree ≤ count) then
      let denseTree := (denseTrees[position.treeNumber]?).getD
        (DenseMerkleTree.fromForestPrefix poseidon cache.forest position.treeNumber treeLeafCount)
      .ok (denseTree.prove position.treePosition,
        denseTrees.insert position.treeNumber denseTree)
    else do
      let proof ← cache.sparsePoiMerkleProof poseidon position blindedCommitment
      .ok (proof, denseTrees))
  validatePoiMerkleProofLeaf proof blindedCommitment
  return (poiMerkleProofFromCache proof, denseTrees)

/-- The proofs of some commitments at their positions, one after another. -/
def poiMerkleProofsLoop (cache : PoiCache) (denseTreeCounts : BTreeMap Nat Nat) :
    List (Bytes32 × PoiCachePosition) → BTreeMap Nat DenseMerkleTree →
      Except PoiCacheError (List PoiMerkleProof)
  | [], _ => .ok []
  | (blindedCommitment, position) :: rest, denseTrees => do
    let (proof, denseTrees) ← cache.poiMerkleProofAtPosition poseidon blindedCommitment position
      denseTreeCounts denseTrees
    let proofs ← poiMerkleProofsLoop cache denseTreeCounts rest denseTrees
    return proof :: proofs

/-- The proofs of commitments, in their order. -/
def poiMerkleProofs (cache : PoiCache) (blindedCommitments : List Bytes32) :
    Except PoiCacheError (List PoiMerkleProof) := do
  cache.ensureRootsValidated poseidon
  let positions ← blindedCommitments.mapM fun blindedCommitment => do
    let position ← cache.positionForBlindedCommitment blindedCommitment
    return (blindedCommitment, position)
  cache.poiMerkleProofsLoop poseidon (denseTreeCounts positions) positions ∅

end Poseidon

end PoiCache

end Railgun
