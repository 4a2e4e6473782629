import Railgun.Core.Types

/-!
# Discovery from a Tree in the DNS

A tree of peers is published as TXT records. Its root is signed, and every other
entry has a label that begins its hash. Peers are found by walks from the root to
a random record. The lookups of a walk are counted when the walk has ended.

Each lookup may be answered differently, and the answers may be forged.

## Main definitions

* `EnrTreeEnv`: What the resolver, the hash and the decoders answer.
* `parseTree`, `parseAndVerifyRoot`, `parseBranch`, `decodeHashLabel`: The URL and the
  entries of a tree.
* `walkLoop`: A walk to one record.
* `discoverStep`, `discoverLoop`, `discoverFromTree`: Walks until the limits are reached.
-/

namespace Railgun

/-- The ways in which discovery fails. -/
inductive EnrTreeError where
  | invalidTreeUrlPrefix
  | invalidTreeUrlFormat
  | missingRoot (domain : String)
  | invalidRootPrefix
  | invalidRootFormat
  | invalidBranchPrefix
  | base32Decode
  | invalidPublicKey
  | base64Decode
  | invalidSignatureLength
  | signatureVerificationFailed
  | invalidHash
  | hashMismatch
  | dns
deriving DecidableEq, Repr

/-- The resolver and the shuffles are told the number of lookups so far, and `rootCaptures`
    gives the four groups of the regular expression for the root. -/
structure EnrTreeEnv (Peer : Type) where
  resolveTxt : (queries : Nat) → (name : String) → Option (List String)
  shuffle : (queries : Nat) → (branches : List String) → {list : List String // list.Perm branches}
  keccak256 : String → List UInt8
  decodeBase32 : (checkTrailingBits : Bool) → String → Option (List UInt8)
  decodeBase64 : String → Option (List UInt8)
  rootCaptures : String → Option (String × String × String × String)
  validPublicKey : List UInt8 → Bool
  validSignature : List UInt8 → Bool
  verifyPrehash : (publicKey digest signature : List UInt8) → Bool
  decodeEnrRecord : String → Option Peer

/-- The URL of a tree: its key and its domain. -/
structure EnrTreeRef where
  publicKeyB32 : String
  domain : String
deriving DecidableEq, Repr

/-- How the entry of a root begins. -/
def rootPrefix : String := "enrtree-root:"

/-- How the entry of a branch begins. -/
def branchPrefix : String := "enrtree-branch:"

/-- How the record of a peer begins. -/
def recordPrefix : String := "enr:"

/-- What comes after the beginning `pfx` of a text. -/
def stripPrefix (text pfx : String) : Option String :=
  if text.startsWith pfx then some (.ofList (text.toList.drop pfx.length)) else none

/-- The key and the domain in the URL of a tree. -/
def parseTree (tree : String) : Except EnrTreeError EnrTreeRef :=
  match stripPrefix tree "enrtree://" with
  | none => .error .invalidTreeUrlPrefix
  | some text =>
    -- What stands before the first sign is the key, and what comes after it the domain.
    match text.toList.dropWhile (· ≠ '@') with
    | [] => .error .invalidTreeUrlFormat
    | _ :: domain => .ok ⟨.ofList (text.toList.takeWhile (· ≠ '@')), .ofList domain⟩

section Entries

variable {Peer : Type} (env : EnrTreeEnv Peer)

/-- The beginning of a hash, of 12 to 32 bytes, that a label stands for. -/
def decodeHashLabel (label : String) : Except EnrTreeError (List UInt8) :=
  match (env.decodeBase32 false label).filter fun hash => 12 ≤ hash.length ∧ hash.length ≤ 32 with
  | some hash => .ok hash
  | none => .error .invalidHash

/-- The labels in the entry of a branch, each of which must be that of a hash. -/
def parseBranch (branch : String) : Except EnrTreeError (List String) :=
  match stripPrefix branch branchPrefix with
  | none => .error .invalidBranchPrefix
  | some suffix =>
    if suffix.isEmpty then .ok []
    else (suffix.splitOn ",").mapM fun label => do
      let _ ← decodeHashLabel env label
      return label

/-- What is read from the entry of a root. -/
structure RootValues where
  eRoot : String
  signature : String
deriving DecidableEq, Repr

/-- The first and the last group of the root. -/
def parseRootValues (txt : String) : Except EnrTreeError RootValues :=
  match env.rootCaptures txt with
  | some (eRoot, _, _, signature) => .ok { eRoot, signature }
  | none => .error .invalidRootFormat

/-- What the signature of a root is for. -/
def signedComponent (root : String) : Option String := (root.splitOn " sig").head?

/-- The label of the peers in a root, if the signature verifies. -/
def parseAndVerifyRoot (root publicKeyB32 : String) : Except EnrTreeError String :=
  if ¬ root.startsWith rootPrefix then .error .invalidRootPrefix
  else do
    let values ← parseRootValues env root
    let _ ← decodeHashLabel env values.eRoot
    let publicKey ← (env.decodeBase32 true publicKeyB32).elim (.error .base32Decode) .ok
    if ¬ env.validPublicKey publicKey then .error .invalidPublicKey
    else do
      let signature ← (env.decodeBase64 values.signature).elim (.error .base64Decode) .ok
      if signature.length < 64 then .error .invalidSignatureLength
      else if ¬ env.validSignature (signature.take 64) then .error .invalidPublicKey
      else do
        let signed ← (signedComponent root).elim (.error .invalidRootFormat) .ok
        if ¬ env.verifyPrehash publicKey (env.keccak256 signed) (signature.take 64) then
          .error .signatureVerificationFailed
        else return values.eRoot

end Entries

section Walks

variable {Peer : Type} (env : EnrTreeEnv Peer) (domain : String)

/-- The loop of `random_walk_one_record`, with the number of lookups so far. -/
def walkLoop : (steps queries : Nat) → (visited : List String) → (current : String) →
    Except EnrTreeError (Option String) × Nat
  | 0, queries, _, _ => (.ok none, queries)
  | steps + 1, queries, visited, current =>
    match (env.resolveTxt queries (current ++ "." ++ domain)).getD [] with
    | [] => (.ok none, queries + 1)
    | txtRecords => match decodeHashLabel env current with
      | .error error => (.error error, queries + 1)
      | .ok hash =>
        match txtRecords.find? fun record => hash.isPrefixOf (env.keccak256 record) with
        | none => (.error .hashMismatch, queries + 1)
        | some entry =>
          if entry.startsWith branchPrefix then
            match parseBranch env entry with
            | .error error => (.error error, queries + 1)
            | .ok branches =>
              let branches := (env.shuffle queries branches).1
              match (branches.find? fun branch => branch ∉ visited).or branches.head? with
              | none => (.ok none, queries + 1)
              | some next => walkLoop steps (queries + 1) (current :: visited) next
          else if entry.startsWith recordPrefix then (.ok (some entry), queries + 1)
          else (.ok none, queries + 1)

/-- The variables of the loop of `discover_from_tree`. The counter of lookups is of the
    type `usize`, which no number of lookups that can be made exceeds. -/
structure DiscoverState (Peer : Type) where
  peers : List Peer := []
  seenRecords : List String := []
  totalQueries : Nat := 0
  emptyOrDuplicate : Int32 := 0

/-- One pass of the loop of `discover_from_tree`: its end, or the next state. -/
def discoverStep (eRoot : String) (state : DiscoverState Peer) :
    (Except EnrTreeError (List Peer) × Nat) ⊕ DiscoverState Peer :=
  match walkLoop env domain 64 state.totalQueries [] eRoot with
  | (.error error, queries) => .inl (.error error, queries)
  | (.ok none, queries) =>
    if state.emptyOrDuplicate + 1 > 50 then .inl (.ok state.peers, queries)
    else .inr { state with
      totalQueries := queries, emptyOrDuplicate := state.emptyOrDuplicate + 1 }
  | (.ok (some record), queries) =>
    if record ∈ state.seenRecords then .inr { state with
      totalQueries := queries, emptyOrDuplicate := state.emptyOrDuplicate + 1 }
    else
      let peers := state.peers ++ (env.decodeEnrRecord record).toList
      if state.emptyOrDuplicate > 50 then .inl (.ok peers, queries)
      else .inr { state with
        peers, seenRecords := record :: state.seenRecords, totalQueries := queries }

/-- The loop of `discover_from_tree`: nothing is returned if there is not enough
    fuel for all walks. -/
def discoverLoop (eRoot : String) (maxTxtQueries maxEnrs : Nat) :
    Nat → DiscoverState Peer → Option (Except EnrTreeError (List Peer) × Nat)
  | 0, _ => none
  | fuel + 1, state =>
    if state.peers.length < maxEnrs ∧ state.totalQueries < maxTxtQueries then
      match discoverStep env domain eRoot state with
      | .inl outcome => some outcome
      | .inr next => discoverLoop eRoot maxTxtQueries maxEnrs fuel next
    else some (.ok state.peers, state.totalQueries)

end Walks

/-- The lookup of the root, which is answered by `rootTxt`, is not counted. -/
def discoverFromTree {Peer : Type} (env : EnrTreeEnv Peer) (rootTxt : String → Option (List String))
    (fuel : Nat) (treeUrl : String) (maxTxtQueries maxEnrs : Nat) :
    Option (Except EnrTreeError (List Peer) × Nat) :=
  match parseTree treeUrl with
  | .error error => some (.error error, 0)
  | .ok tree => match rootTxt tree.domain with
    | none => some (.error .dns, 0)
    | some txt => match txt.find? (·.startsWith rootPrefix) with
      | none => some (.error (.missingRoot tree.domain), 0)
      | some root => match parseAndVerifyRoot env root tree.publicKeyB32 with
        | .error error => some (.error error, 0)
        | .ok eRoot => discoverLoop env tree.domain eRoot maxTxtQueries maxEnrs fuel {}

end Railgun
