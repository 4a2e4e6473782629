import Railgun.Core.Types
import Railgun.Lib.Machine
import Mathlib.Data.Finset.Basic

/-!
# Files in Content-Addressed Blocks

A file is a graph of blocks that name each other by the hash of their content. A
block is raw, or it is a node with some data and links to other blocks, whose
contents follow the data. A node may say how large the file is that it stands for,
and how large the files of its links are.

The blocks are walked with a stack of the nodes that are being read, and the file is
written out on the way. Decoding a node is a parameter. Lengths and counts are
64-bit words, and so are the limits, so a sum that leaves the word is beyond its
limit.

## Main definitions

* `Cid`, `PbNode`, `UnixFsData`: Names of blocks, and what is in a node.
* `UnixFsTraversal`, `traversalStep`: The walk.
-/

namespace Railgun

/-- The name of a block: how it is to be read, and its hash. -/
structure Cid where
  codec : Nat
  hash : List UInt8
deriving DecidableEq, Repr

/-- A node with its links. -/
structure PbNode where
  data : Option (List UInt8)
  links : List Cid
deriving DecidableEq, Repr

/-- What a node is. -/
inductive UnixFsDataType where
  | raw
  | directory
  | file
  | metadata
  | symlink
  | hamtShard
  | unknown (value : Int)
deriving DecidableEq, Repr

/-- What a node says of its file. -/
structure UnixFsData where
  dataType : UnixFsDataType
  data : Option (List UInt8)
  filesize : Option Nat
  blocksizes : List Nat
deriving DecidableEq, Repr

/-- Why a file is refused. -/
inductive TrustlessArtifactError where
  | unixFsDepthLimitExceeded (limit : Nat)
  | unixFsLinkVisitLimitExceeded (limit : Nat)
  | reconstructedTooLarge (limit : Nat)
  | missingBlock (cid : Cid)
  | cycle (cid : Cid)
  | malformedUnixFsFile (message : String)
  | unsupportedUnixFsType (dataType : UnixFsDataType)
  | unsupportedCodec (cid : Cid) (codec : Nat)
  | dagPb (message : String)
  | unixFsData (message : String)
deriving DecidableEq, Repr

/-- The codec of raw blocks. -/
def rawCodec : Nat := 0x55

/-- The codec of nodes. -/
def dagPbCodec : Nat := 0x70

/-- How deep a file may be, how many links may be followed, and how large it may
    be. -/
structure UnixFsLimits where
  unixfsMaxDepth : Nat
  unixfsMaxLinkVisits : Nat
  reconstructedBytes : Nat
  maxDepth_lt : unixfsMaxDepth < 2 ^ 64
  maxLinkVisits_lt : unixfsMaxLinkVisits < 2 ^ 64
  reconstructedBytes_lt : reconstructedBytes < 2 ^ 64

/-- The blocks that are there, and how nodes are decoded. -/
structure UnixFsBlocks where
  blocks : Cid → Option (List UInt8)
  decodeNode : List UInt8 → Except TrustlessArtifactError PbNode
  decodeData : List UInt8 → Except TrustlessArtifactError UnixFsData

/-- A node that is being read. The child that is being read started at some length
    and may have to have some size. -/
structure UnixFsFrame where
  cid : Cid
  depth : Nat
  outputStart : Nat
  links : List Cid
  blocksizes : List Nat
  filesize : Option Nat
  nextLink : Nat
  pendingChild : Option (Nat × Option Nat)
deriving DecidableEq, Repr

/-- The walk: the file so far, the nodes above, the nodes that are being read with
    the innermost first, and the block that is next. -/
structure UnixFsTraversal where
  out : List UInt8
  activeAncestry : Finset Cid
  frames : List UnixFsFrame
  next : Option (Cid × Nat)
  linkVisits : Nat

/-- The walk ends with a file or an error, or at a broken assumption. -/
inductive UnixFsOutcome where
  | finished (result : Except TrustlessArtifactError (List UInt8))
  | panicked

/-- Write bytes, up to a limit. -/
def appendBytes (out bytes : List UInt8) (limit : Nat) :
    Except TrustlessArtifactError (List UInt8) :=
  if limit < out.length + bytes.length then .error (.reconstructedTooLarge limit)
  else .ok (out ++ bytes)

/-- A size is as announced. -/
def validateUnixfsSize (actual expected : Nat) : Except TrustlessArtifactError Unit :=
  if actual ≠ expected then
    .error (.malformedUnixFsFile "UnixFS file size does not match reconstructed bytes")
  else .ok ()

/-- A size is checked where one is declared. -/
def validateFilesize (actual : Nat) (filesize : Option Nat) : Except TrustlessArtifactError Unit :=
  match filesize with
  | some expected => validateUnixfsSize actual expected
  | none => .ok ()

/-- The node above a block that has been read checks its size. Without a child that
    is being read there is no answer. -/
def validateCompletedChild (frames : List UnixFsFrame) (outputLen : Nat) :
    Option (Except TrustlessArtifactError (List UnixFsFrame)) :=
  match frames with
  | [] => some (.ok [])
  | parent :: frames =>
    parent.pendingChild.map fun pending =>
      if pending.2.any fun expected => outputLen - pending.1 != expected then
        .error (.malformedUnixFsFile "UnixFS child size does not match declared block size")
      else .ok ({ parent with pendingChild := none } :: frames)

/-- A block that has been read: all of it is in the file, or its links are to be
    followed. -/
inductive BlockContent where
  | whole (out : List UInt8)
  | file (out : List UInt8) (node : PbNode) (unixfs : UnixFsData)

section Traversal

variable (store : UnixFsBlocks) (limits : UnixFsLimits)

/-- An error ends the walk. -/
def orFail {α : Type} (result : Except TrustlessArtifactError α)
    (next : α → StepResult UnixFsTraversal UnixFsOutcome) :
    StepResult UnixFsTraversal UnixFsOutcome :=
  match result with
  | .error error => .halt (.finished (.error error))
  | .ok value => next value

/-- A node and its data. -/
def decodeUnixFs (block : List UInt8) : Except TrustlessArtifactError (PbNode × UnixFsData) := do
  let node ← store.decodeNode block
  match node.data with
  | none => .error (.malformedUnixFsFile "missing UnixFS Data")
  | some data => return (node, ← store.decodeData data)

/-- Write the data of a node, if it has any. -/
def appendData (out : List UInt8) (data : Option (List UInt8)) :
    Except TrustlessArtifactError (List UInt8) :=
  match data with
  | some data => appendBytes out data limits.reconstructedBytes
  | none => .ok out

/-- A node without links. -/
def enterRaw (out : List UInt8) (node : PbNode) (unixfs : UnixFsData) :
    Except TrustlessArtifactError (List UInt8) :=
  if node.links ≠ [] ∨ unixfs.blocksizes ≠ [] then
    .error (.malformedUnixFsFile "raw UnixFS node must not contain links or block sizes")
  else do
    let after ← appendData limits out unixfs.data
    validateFilesize (after.length - out.length) unixfs.filesize
    return after

/-- The data of a node with links. -/
def enterFile (out : List UInt8) (node : PbNode) (unixfs : UnixFsData) :
    Except TrustlessArtifactError (List UInt8) :=
  if unixfs.blocksizes ≠ [] ∧ unixfs.blocksizes.length ≠ node.links.length then
    .error (.malformedUnixFsFile "UnixFS block sizes must match link count")
  else
    appendData limits out unixfs.data

/-- Only raw nodes and files are read. -/
def readNode (out : List UInt8) (node : PbNode) (unixfs : UnixFsData) :
    Except TrustlessArtifactError BlockContent :=
  match unixfs.dataType with
  | .raw => return .whole (← enterRaw limits out node unixfs)
  | .file => return .file (← enterFile limits out node unixfs) node unixfs
  | .directory => .error (.unsupportedUnixFsType .directory)
  | .metadata => .error (.unsupportedUnixFsType .metadata)
  | .symlink => .error (.unsupportedUnixFsType .symlink)
  | .hamtShard => .error (.unsupportedUnixFsType .hamtShard)
  | .unknown value => .error (.unsupportedUnixFsType (.unknown value))

/-- Read a block below some nodes. A node without links is not above anything, so it
    does not stay among them. -/
def readBlock (out : List UInt8) (activeAncestry : Finset Cid) (cid : Cid) :
    Except TrustlessArtifactError BlockContent :=
  match store.blocks cid with
  | none => .error (.missingBlock cid)
  | some block =>
    if cid.codec = rawCodec then
      return .whole (← appendBytes out block limits.reconstructedBytes)
    else if cid.codec = dagPbCodec then
      if cid ∈ activeAncestry then .error (.cycle cid)
      else do
        let content ← decodeUnixFs store block
        readNode limits out content.1 content.2
    else .error (.unsupportedCodec cid cid.codec)

/-- A block has been read. The walk is over if there is nothing above it. -/
def completeChild (state : UnixFsTraversal) : StepResult UnixFsTraversal UnixFsOutcome :=
  match validateCompletedChild state.frames state.out.length with
  | none => .halt .panicked
  | some result =>
    orFail result fun frames =>
      if frames.isEmpty then .halt (.finished (.ok state.out)) else .next { state with frames }

/-- Read the block that is next. -/
def enterBlock (state : UnixFsTraversal) (cid : Cid) (depth : Nat) :
    StepResult UnixFsTraversal UnixFsOutcome :=
  if limits.unixfsMaxDepth < depth then
    .halt (.finished (.error (.unixFsDepthLimitExceeded limits.unixfsMaxDepth)))
  else
    orFail (readBlock store limits state.out state.activeAncestry cid) fun content =>
      match content with
      | .whole out => completeChild { state with out, next := none }
      | .file out node unixfs =>
        .next { state with
          out, next := none, activeAncestry := insert cid state.activeAncestry,
          frames := { cid, depth, outputStart := state.out.length, links := node.links,
                      blocksizes := unixfs.blocksizes, filesize := unixfs.filesize,
                      nextLink := 0, pendingChild := none } :: state.frames }

/-- Go to the next child of the innermost node. -/
def followLink (state : UnixFsTraversal) (frame : UnixFsFrame) (frames : List UnixFsFrame)
    (child : Cid) : StepResult UnixFsTraversal UnixFsOutcome :=
  if limits.unixfsMaxLinkVisits < state.linkVisits + 1 then
    .halt (.finished (.error (.unixFsLinkVisitLimitExceeded limits.unixfsMaxLinkVisits)))
  else if 2 ^ 64 ≤ frame.depth + 1 then
    .halt (.finished (.error (.unixFsDepthLimitExceeded limits.unixfsMaxDepth)))
  else
    .next { state with
      linkVisits := state.linkVisits + 1, next := some (child, frame.depth + 1),
      frames := { frame with
        nextLink := frame.nextLink + 1,
        pendingChild := some (state.out.length, frame.blocksizes[frame.nextLink]?) } :: frames }

/-- All children of the innermost node have been read. -/
def leaveFile (state : UnixFsTraversal) (frame : UnixFsFrame) (frames : List UnixFsFrame) :
    StepResult UnixFsTraversal UnixFsOutcome :=
  orFail (validateFilesize (state.out.length - frame.outputStart) frame.filesize) fun _ =>
    completeChild { state with
      frames, activeAncestry := state.activeAncestry.erase frame.cid }

/-- One step of the traversal. -/
def traversalStep (state : UnixFsTraversal) : StepResult UnixFsTraversal UnixFsOutcome :=
  match state.next with
  | some (cid, depth) => enterBlock store limits state cid depth
  | none =>
    match state.frames with
    | [] => .halt .panicked
    | frame :: frames =>
      match frame.links[frame.nextLink]? with
      | some child => followLink limits state frame frames child
      | none => leaveFile state frame frames

/-- The walk from a root. -/
def startTraversal (root : Cid) : UnixFsTraversal :=
  { out := [], activeAncestry := ∅, frames := [], next := some (root, 1), linkVisits := 0 }

/-- The file under a root, if the walk ends after some steps. -/
def reconstructFile (root : Cid) (fuel : Nat) : Option UnixFsOutcome :=
  runMachine (traversalStep store limits) fuel (startTraversal root)

end Traversal

end Railgun
