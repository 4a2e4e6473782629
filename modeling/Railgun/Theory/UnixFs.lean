import Railgun.Core.UnixFs
import Railgun.Lib.Fallible

/-!
# Reading a File

The walk over the blocks is a recursion that keeps its own stack. `visit` is that
recursion: it reads a block with everything below it, in as many levels as are left.
`yields_visit` finds it in the walk, with the same errors, whatever is above the
block. What `visit` reads when there is no error is a tree of blocks, whose bytes
are those of each node followed by those of its children.

## Main definitions

* `UnixFsTree`: The blocks below a root, as a tree.

## Theorems

* `yields_visit`: The walk reads a block as the recursion does.
* `visit_eq_ok`: The recursion reads exactly the trees that are within the limits.
* `reconstructFile_iff_tree`: So does the walk, and it always ends.
-/

namespace Railgun

/-- The blocks below a root: a block of bytes, or a node with data and children. -/
inductive UnixFsTree where
  | leaf (cid : Cid) (bytes : List UInt8)
  | node (cid : Cid) (data : List UInt8) (children : List UnixFsTree)

namespace UnixFsTree

/-- The name of a tree. -/
def cid : UnixFsTree → Cid
  | .leaf cid _ => cid
  | .node cid _ _ => cid

mutual

/-- The data of each node, followed by that of its children. -/
def bytes : UnixFsTree → List UInt8
  | .leaf _ bytes => bytes
  | .node _ data children => data ++ bytesAll children

/-- The bytes of trees, one after another. -/
def bytesAll : List UnixFsTree → List UInt8
  | [] => []
  | tree :: trees => tree.bytes ++ bytesAll trees

end

mutual

/-- The number of levels. -/
def height : UnixFsTree → Nat
  | .leaf _ _ => 1
  | .node _ _ children => heightAll children + 1

/-- The height of the highest. -/
def heightAll : List UnixFsTree → Nat
  | [] => 0
  | tree :: trees => max tree.height (heightAll trees)

end

mutual

/-- The number of links. A block that is linked twice counts twice, with all that is
    below it. -/
def linkVisits : UnixFsTree → Nat
  | .leaf _ _ => 0
  | .node _ _ children => linkVisitsAll children

/-- The links followed in all of them. -/
def linkVisitsAll : List UnixFsTree → Nat
  | [] => 0
  | tree :: trees => 1 + tree.linkVisits + linkVisitsAll trees

end

mutual

/-- No block is below itself or below one of the given ones that has its name. -/
def AncestorFree (ancestors : Finset Cid) : UnixFsTree → Prop
  | .leaf cid _ => cid ∉ ancestors
  | .node cid _ children => cid ∉ ancestors ∧ AncestorFreeAll (insert cid ancestors) children

/-- No tree of a list contains an ancestor. -/
def AncestorFreeAll (ancestors : Finset Cid) : List UnixFsTree → Prop
  | [] => True
  | tree :: trees => tree.AncestorFree ancestors ∧ AncestorFreeAll ancestors trees

end

end UnixFsTree

section Meaning

variable (store : UnixFsBlocks)

/-- The node of a name is there, can be decoded, and is a file. A file without links
    may also be a raw node. -/
def StoredNode (cid : Cid) (node : PbNode) (unixfs : UnixFsData) : Prop :=
  cid.codec = dagPbCodec ∧
    (∃ block payload, store.blocks cid = some block ∧ store.decodeNode block = .ok node ∧
      node.data = some payload ∧ store.decodeData payload = .ok unixfs) ∧
    (unixfs.dataType = .raw ∧ node.links = [] ∧ unixfs.blocksizes = [] ∨
      unixfs.dataType = .file)

theorem StoredNode.of_raw {store : UnixFsBlocks} {cid : Cid} {node : PbNode} {unixfs : UnixFsData}
    (h : StoredNode store cid node unixfs) (htype : unixfs.dataType = .raw) :
    node.links = [] ∧ unixfs.blocksizes = [] := by
  obtain ⟨_, hlinks, hsizes⟩ | hfile := h.2.2
  · exact ⟨hlinks, hsizes⟩
  · exact absurd (htype.symm.trans hfile) (by simp only [reduceCtorEq, not_false_eq_true])

/-- The node of a name has some data and links to some trees, and the sizes that it
    declares are theirs and its own. -/
def StoredFile (cid : Cid) (data : List UInt8) (children : List UnixFsTree) : Prop :=
  ∃ node unixfs, StoredNode store cid node unixfs ∧ data = unixfs.data.getD [] ∧
    node.links = children.map UnixFsTree.cid ∧
    (unixfs.blocksizes = [] ∨
      unixfs.blocksizes = children.map fun child => child.bytes.length) ∧
    ∀ size ∈ unixfs.filesize, size = (data ++ UnixFsTree.bytesAll children).length

namespace UnixFsTree

mutual

/-- The blocks of a tree are there, and the sizes that they declare are the sizes of
    what is below them. -/
def WellFormed : UnixFsTree → Prop
  | .leaf cid bytes => cid.codec = rawCodec ∧ store.blocks cid = some bytes
  | .node cid data children => StoredFile store cid data children ∧ WellFormedAll children

/-- All of them are well formed. -/
def WellFormedAll : List UnixFsTree → Prop
  | [] => True
  | tree :: trees => tree.WellFormed ∧ WellFormedAll trees

end

end UnixFsTree

end Meaning

section Recursion

variable (store : UnixFsBlocks) (limits : UnixFsLimits)

/-- Read the children of a node. The file so far comes with the links that have been
    followed. -/
def visitLinks
    (visitChild : Cid → List UInt8 × Nat → Except TrustlessArtifactError (List UInt8 × Nat)) :
    List Cid → List Nat → List UInt8 × Nat → Except TrustlessArtifactError (List UInt8 × Nat)
  | [], _, file => .ok file
  | child :: links, sizes, file =>
    if limits.unixfsMaxLinkVisits < file.2 + 1 then
      .error (.unixFsLinkVisitLimitExceeded limits.unixfsMaxLinkVisits)
    else do
      let after ← visitChild child (file.1, file.2 + 1)
      if sizes.head?.any fun expected => after.1.length - file.1.length != expected then
        .error (.malformedUnixFsFile "UnixFS child size does not match declared block size")
      else visitLinks visitChild links sizes.tail after

/-- Read a block with all that is below it. -/
def visit : Nat → Finset Cid → Cid → List UInt8 × Nat →
    Except TrustlessArtifactError (List UInt8 × Nat)
  | 0, _, _, _ => .error (.unixFsDepthLimitExceeded limits.unixfsMaxDepth)
  | levels + 1, ancestors, cid, file => do
    match ← readBlock store limits file.1 ancestors cid with
    | .whole out => return (out, file.2)
    | .file out node unixfs =>
      let after ← visitLinks limits (visit levels (insert cid ancestors)) node.links
        unixfs.blocksizes (out, file.2)
      validateFilesize (after.1.length - file.1.length) unixfs.filesize
      return after

end Recursion

section Reading

variable {store : UnixFsBlocks} {limits : UnixFsLimits}
variable {out after : List UInt8} {ancestors : Finset Cid} {cid : Cid}
variable {node : PbNode} {unixfs : UnixFsData}

theorem appendBytes_eq_ok {bytes : List UInt8} {limit : Nat} :
    appendBytes out bytes limit = .ok after ↔
      out.length + bytes.length ≤ limit ∧ after = out ++ bytes := by
  rw [appendBytes, ite_error_eq_ok, not_lt, Except.ok.injEq, eq_comm (a := after)]

theorem appendData_eq_ok {data : Option (List UInt8)}
    (hout : out.length ≤ limits.reconstructedBytes) :
    appendData limits out data = .ok after ↔
      out.length + (data.getD []).length ≤ limits.reconstructedBytes ∧
        after = out ++ data.getD [] := by
  cases data with
  | none =>
    rw [appendData, Option.getD_none, List.length_nil, Nat.add_zero, List.append_nil,
      Except.ok.injEq, eq_comm]
    exact (and_iff_right hout).symm
  | some data => exact appendBytes_eq_ok

/-- A size that is declared must be right. -/
theorem validateFilesize_eq_ok {actual : Nat} {filesize : Option Nat} {done : Unit} :
    validateFilesize actual filesize = .ok done ↔ ∀ size ∈ filesize, size = actual := by
  cases filesize with
  | none => simp [validateFilesize]
  | some expected =>
    simp [validateFilesize, validateUnixfsSize, eq_comm (a := actual)]

theorem decodeUnixFs_eq_ok {block : List UInt8} :
    decodeUnixFs store block = .ok (node, unixfs) ↔
      ∃ payload, store.decodeNode block = .ok node ∧ node.data = some payload ∧
        store.decodeData payload = .ok unixfs := by
  rw [decodeUnixFs, bind_eq_ok]
  constructor
  · rintro ⟨decoded, hdecoded, h⟩
    cases hdata : decoded.data with
    | none =>
      rw [hdata] at h
      cases h
    | some payload =>
      rw [hdata] at h
      obtain ⟨content, hcontent, h⟩ := bind_eq_ok.mp h
      obtain ⟨rfl, rfl⟩ := Prod.mk.inj (Except.ok.inj h)
      exact ⟨payload, hdecoded, hdata, hcontent⟩
  · rintro ⟨payload, hnode, hdata, hunixfs⟩
    refine ⟨node, hnode, ?_⟩
    rw [hdata]
    exact bind_eq_ok.mpr ⟨unixfs, hunixfs, rfl⟩

theorem enterRaw_eq_ok (hout : out.length ≤ limits.reconstructedBytes) :
    enterRaw limits out node unixfs = .ok after ↔
      node.links = [] ∧ unixfs.blocksizes = [] ∧
        out.length + (unixfs.data.getD []).length ≤ limits.reconstructedBytes ∧
        (∀ size ∈ unixfs.filesize, size = (unixfs.data.getD []).length) ∧
        after = out ++ unixfs.data.getD [] := by
  rw [enterRaw, ite_error_eq_ok, not_or, not_not, not_not, and_assoc, bind_eq_ok]
  refine and_congr_right fun _ => and_congr_right fun _ => ?_
  simp only [appendData_eq_ok hout, bind_eq_ok, validateFilesize_eq_ok]
  constructor
  · rintro ⟨written, ⟨hlimit, rfl⟩, _, hsize, h⟩
    rw [List.length_append, Nat.add_sub_cancel_left] at hsize
    exact ⟨hlimit, hsize, (Except.ok.inj h).symm⟩
  · rintro ⟨hlimit, hsize, rfl⟩
    refine ⟨_, ⟨hlimit, rfl⟩, (), ?_, rfl⟩
    rw [List.length_append, Nat.add_sub_cancel_left]
    exact hsize

theorem enterFile_eq_ok (hout : out.length ≤ limits.reconstructedBytes) :
    enterFile limits out node unixfs = .ok after ↔
      (unixfs.blocksizes = [] ∨ unixfs.blocksizes.length = node.links.length) ∧
        out.length + (unixfs.data.getD []).length ≤ limits.reconstructedBytes ∧
        after = out ++ unixfs.data.getD [] := by
  rw [enterFile, ite_error_eq_ok, appendData_eq_ok hout]
  rw [not_and_or, not_not, not_not]

/-- Only raw nodes and files are read. -/
theorem readNode_eq_ok {content : BlockContent} :
    readNode limits out node unixfs = .ok content ↔
      unixfs.dataType = .raw ∧
          (∃ after, enterRaw limits out node unixfs = .ok after ∧ content = .whole after) ∨
        unixfs.dataType = .file ∧
          ∃ after, enterFile limits out node unixfs = .ok after ∧
            content = .file after node unixfs := by
  rw [readNode]
  cases unixfs.dataType with
  | raw => simp only [bind_pure_eq_ok, true_and, reduceCtorEq, false_and, or_false]
  | file => simp only [bind_pure_eq_ok, true_and, reduceCtorEq, false_and, false_or]
  | directory | metadata | symlink | hamtShard | unknown value =>
    simp only [reduceCtorEq, false_and, or_false]

theorem readBlock_eq_ok {content : BlockContent} :
    readBlock store limits out ancestors cid = .ok content ↔
      ∃ block, store.blocks cid = some block ∧
        (cid.codec = rawCodec ∧
            (∃ after, appendBytes out block limits.reconstructedBytes = .ok after ∧
              content = .whole after) ∨
          cid.codec = dagPbCodec ∧ cid ∉ ancestors ∧
            ∃ node unixfs, decodeUnixFs store block = .ok (node, unixfs) ∧
              readNode limits out node unixfs = .ok content) := by
  rw [readBlock]
  cases store.blocks cid with
  | none => simp only [reduceCtorEq, false_and, exists_false]
  | some block =>
    simp only [Option.some.injEq, exists_eq_left']
    by_cases hraw : cid.codec = rawCodec
    · have hdag : cid.codec ≠ dagPbCodec := by
        rw [hraw]
        decide
      rw [if_pos hraw, bind_pure_eq_ok, and_iff_right hraw]
      exact (or_iff_left fun h => hdag h.1).symm
    rw [if_neg hraw, or_iff_right fun h => hraw h.1]
    by_cases hdag : cid.codec = dagPbCodec
    · rw [if_pos hdag, and_iff_right hdag, ite_error_eq_ok, bind_eq_ok, Prod.exists]
    · rw [if_neg hdag]
      simp only [hdag, reduceCtorEq, false_and]

/-- A block that is read whole is a block of bytes or a raw node. -/
theorem readBlock_whole_iff (hout : out.length ≤ limits.reconstructedBytes) :
    readBlock store limits out ancestors cid = .ok (.whole after) ↔
      ∃ bytes, (cid.codec = rawCodec ∧ store.blocks cid = some bytes ∨
          cid ∉ ancestors ∧ ∃ node unixfs, StoredNode store cid node unixfs ∧
            unixfs.dataType = .raw ∧ bytes = unixfs.data.getD [] ∧
            ∀ size ∈ unixfs.filesize, size = bytes.length) ∧
        out.length + bytes.length ≤ limits.reconstructedBytes ∧ after = out ++ bytes := by
  rw [readBlock_eq_ok]
  constructor
  · rintro ⟨block, hblock, ⟨hraw, written, hwritten, hcontent⟩ | ⟨hdag, hcid, node, unixfs,
      hdecoded, hread⟩⟩
    · obtain ⟨hlimit, rfl⟩ := appendBytes_eq_ok.mp hwritten
      exact ⟨block, .inl ⟨hraw, hblock⟩, hlimit, BlockContent.whole.inj hcontent⟩
    · obtain ⟨htype, written, hwritten, hcontent⟩ | ⟨_, _, _, hcontent⟩ := readNode_eq_ok.mp hread
      · obtain ⟨payload, hnode, hdata, hunixfs⟩ := decodeUnixFs_eq_ok.mp hdecoded
        obtain ⟨hlinks, hsizes, hlimit, hsize, rfl⟩ := (enterRaw_eq_ok hout).mp hwritten
        exact ⟨_, .inr ⟨hcid, node, unixfs, ⟨hdag, ⟨block, payload, hblock, hnode, hdata, hunixfs⟩,
          .inl ⟨htype, hlinks, hsizes⟩⟩, htype, rfl, hsize⟩, hlimit,
          BlockContent.whole.inj hcontent⟩
      · cases hcontent
  · rintro ⟨bytes, ⟨hraw, hblock⟩ | ⟨hcid, node, unixfs, hstored, htype, rfl, hsize⟩,
      hlimit, rfl⟩
    · exact ⟨bytes, hblock, .inl ⟨hraw, _, appendBytes_eq_ok.mpr ⟨hlimit, rfl⟩, rfl⟩⟩
    · obtain ⟨hlinks, hsizes⟩ := hstored.of_raw htype
      obtain ⟨hdag, ⟨block, payload, hblock, hnode, hdata, hunixfs⟩, _⟩ := hstored
      exact ⟨block, hblock, .inr ⟨hdag, hcid, node, unixfs,
        decodeUnixFs_eq_ok.mpr ⟨payload, hnode, hdata, hunixfs⟩, readNode_eq_ok.mpr (.inl ⟨htype, _,
          (enterRaw_eq_ok hout).mpr ⟨hlinks, hsizes, hlimit, hsize, rfl⟩, rfl⟩)⟩⟩

/-- A block with children is a file that is not above itself. -/
theorem readBlock_file_iff (hout : out.length ≤ limits.reconstructedBytes) :
    readBlock store limits out ancestors cid = .ok (.file after node unixfs) ↔
      cid ∉ ancestors ∧ StoredNode store cid node unixfs ∧ unixfs.dataType = .file ∧
        (unixfs.blocksizes = [] ∨ unixfs.blocksizes.length = node.links.length) ∧
        out.length + (unixfs.data.getD []).length ≤ limits.reconstructedBytes ∧
        after = out ++ unixfs.data.getD [] := by
  rw [readBlock_eq_ok]
  constructor
  · rintro ⟨block, hblock, ⟨_, _, _, hcontent⟩ | ⟨hdag, hcid, node', unixfs', hdecoded, hread⟩⟩
    · cases hcontent
    · obtain ⟨_, _, _, hcontent⟩ | ⟨htype, written, hwritten, hcontent⟩ := readNode_eq_ok.mp hread
      · cases hcontent
      · obtain ⟨rfl, rfl, rfl⟩ := BlockContent.file.inj hcontent
        obtain ⟨payload, hnode, hdata, hunixfs⟩ := decodeUnixFs_eq_ok.mp hdecoded
        exact ⟨hcid, ⟨hdag, ⟨block, payload, hblock, hnode, hdata, hunixfs⟩, .inr htype⟩, htype,
          (enterFile_eq_ok hout).mp hwritten⟩
  · rintro ⟨hcid, ⟨hdag, ⟨block, payload, hblock, hnode, hdata, hunixfs⟩, _⟩, htype, hwritten⟩
    exact ⟨block, hblock, .inr ⟨hdag, hcid, node, unixfs,
      decodeUnixFs_eq_ok.mpr ⟨payload, hnode, hdata, hunixfs⟩, readNode_eq_ok.mpr (.inr ⟨htype, _,
        (enterFile_eq_ok hout).mpr hwritten, rfl⟩)⟩⟩

theorem not_mem_of_readBlock_file
    (h : readBlock store limits out ancestors cid = .ok (.file after node unixfs)) :
    cid ∉ ancestors := by
  obtain ⟨_, _, ⟨_, _, _, hcontent⟩ | ⟨_, hcid, _⟩⟩ := readBlock_eq_ok.mp h
  · cases hcontent
  · exact hcid

end Reading

section Walk

variable {store : UnixFsBlocks} {limits : UnixFsLimits} {outcome : UnixFsOutcome}

theorem orFail_bind {α β : Type} {x : Except TrustlessArtifactError α}
    {f : α → Except TrustlessArtifactError β}
    {next : β → StepResult UnixFsTraversal UnixFsOutcome} :
    orFail (x >>= f) next = orFail x fun value => orFail (f value) next := by
  cases x <;> rfl

/-- After an error the walk ends with it, whatever was to follow. -/
theorem leads_orFail_congr {α : Type} {x : Except TrustlessArtifactError α}
    {next other : α → StepResult UnixFsTraversal UnixFsOutcome}
    (h : ∀ value, x = .ok value →
      ((next value).Leads (traversalStep store limits) outcome ↔
        (other value).Leads (traversalStep store limits) outcome)) :
    (orFail x next).Leads (traversalStep store limits) outcome ↔
      (orFail x other).Leads (traversalStep store limits) outcome := by
  cases x with
  | error error => exact Iff.rfl
  | ok value => exact h value rfl

-- A child that has been read is below a node that waits for it, so the walk goes on
-- with that node once the size of the child has been checked.
theorem completeChild_pending {state : UnixFsTraversal} {frame : UnixFsFrame}
    {frames : List UnixFsFrame} {start : Nat} {expected : Option Nat}
    (hframes : state.frames = frame :: frames)
    (hpending : frame.pendingChild = some (start, expected)) :
    completeChild state =
      if expected.any fun expected => state.out.length - start != expected then
        .halt (.finished (.error (.malformedUnixFsFile
          "UnixFS child size does not match declared block size")))
      else .next { state with frames := { frame with pendingChild := none } :: frames } := by
  rw [completeChild, hframes, validateCompletedChild, hpending]
  simp only [Option.map_some]
  split <;> rfl

/-- The walk reads a block as the recursion does, with some levels left. -/
def ReadsAs (store : UnixFsBlocks) (limits : UnixFsLimits) (levels : Nat) : Prop :=
  ∀ (state : UnixFsTraversal) (cid : Cid) (depth : Nat) (outcome : UnixFsOutcome),
    state.next = some (cid, depth) → depth + levels = limits.unixfsMaxDepth + 1 →
    (Yields (traversalStep store limits) state outcome ↔
      (orFail (visit store limits levels state.activeAncestry cid (state.out, state.linkVisits))
        fun file => completeChild { state with
          out := file.1, linkVisits := file.2, next := none }).Leads
        (traversalStep store limits) outcome)

-- Strategy: induction on the links that are left. The limit on the depth trips at the
-- link if the depth leaves the word, and below it otherwise, with the same error.
/-- The walk reads the children of a node as the recursion does. -/
theorem yields_visitLinks {levels : Nat} (hreads : ReadsAs store limits levels)
    (links : List Cid) {state : UnixFsTraversal} (frame : UnixFsFrame) {frames : List UnixFsFrame}
    (hlinks : frame.links.drop frame.nextLink = links) (hnext : state.next = none)
    (hframes : state.frames = frame :: frames) (hpending : frame.pendingChild = none)
    (hdepth : frame.depth + 1 + levels = limits.unixfsMaxDepth + 1) :
    Yields (traversalStep store limits) state outcome ↔
      (orFail (visitLinks limits (visit store limits levels state.activeAncestry) links
        (frame.blocksizes.drop frame.nextLink) (state.out, state.linkVisits))
        fun file => leaveFile { state with out := file.1, linkVisits := file.2 } frame
          frames).Leads (traversalStep store limits) outcome := by
  induction links generalizing state frame with
  | nil =>
    have hend : frame.links[frame.nextLink]? = none := by
      rw [← List.head?_drop, hlinks, List.head?_nil]
    obtain ⟨out, ancestors, _, _, visits⟩ := state
    subst hnext hframes
    rw [yields_iff_leads, traversalStep]
    simp only [hend, visitLinks, orFail]
  | cons child links ih =>
    have hchild : frame.links[frame.nextLink]? = some child := by
      rw [← List.head?_drop, hlinks, List.head?_cons]
    have hrest : frame.links.drop (frame.nextLink + 1) = links := by
      rw [← List.tail_drop, hlinks, List.tail_cons]
    obtain ⟨out, ancestors, _, _, visits⟩ := state
    subst hnext hframes
    rw [yields_iff_leads, traversalStep]
    simp only [hchild, followLink, visitLinks]
    by_cases hvisits : limits.unixfsMaxLinkVisits < visits + 1
    · rw [if_pos hvisits, if_pos hvisits, orFail]
    rw [if_neg hvisits, if_neg hvisits, orFail_bind]
    by_cases hword : 2 ^ 64 ≤ frame.depth + 1
    · -- There is no level left for the child.
      have hlevels : levels = 0 := by
        have := limits.maxDepth_lt
        omega
      rw [if_pos hword, hlevels, visit, orFail]
    rw [if_neg hword, StepResult.Leads, hreads _ child (frame.depth + 1) outcome rfl hdepth]
    refine leads_orFail_congr fun file _ => ?_
    rw [completeChild_pending rfl rfl, ← List.head?_drop]
    by_cases hsize : ((frame.blocksizes.drop frame.nextLink).head?.any fun expected =>
        file.1.length - out.length != expected) = true
    · rw [if_pos hsize, if_pos hsize, orFail]
    rw [if_neg hsize, if_neg hsize, StepResult.Leads, List.tail_drop]
    exact ih { frame with nextLink := frame.nextLink + 1, pendingChild := none } hrest rfl rfl rfl
      hdepth

/-- By induction over the levels that are left. -/
theorem yields_visit (levels : Nat) : ReadsAs store limits levels := by
  induction levels with
  | zero =>
    intro state cid depth outcome hnext hdepth
    rw [yields_iff_leads, traversalStep, hnext]
    simp only [enterBlock, visit, orFail]
    rw [if_pos (by omega)]
  | succ levels ih =>
    intro state cid depth outcome hnext hdepth
    rw [yields_iff_leads, traversalStep, hnext]
    simp only [enterBlock, visit]
    rw [if_neg (by omega), orFail_bind]
    refine leads_orFail_congr fun content hcontent => ?_
    cases content with
    | whole out => rfl
    | file out node unixfs =>
      have hcid : cid ∉ state.activeAncestry := not_mem_of_readBlock_file hcontent
      rw [StepResult.Leads, yields_visitLinks ih node.links _ rfl rfl rfl rfl
        (by simp only; omega), orFail_bind, List.drop_zero]
      refine leads_orFail_congr fun file _ => ?_
      rw [orFail_bind, leaveFile, Finset.erase_insert hcid]
      rfl

end Walk

section Trees

variable {store : UnixFsBlocks} {limits : UnixFsLimits}
variable {ancestors : Finset Cid} {file after : List UInt8 × Nat}

/-- A tree can be read below some nodes, in the levels that are left and after what
    has been read. -/
@[mk_iff]
structure UnixFsTree.Fits (store : UnixFsBlocks) (limits : UnixFsLimits) (levels : Nat)
    (ancestors : Finset Cid) (file : List UInt8 × Nat) (tree : UnixFsTree) : Prop where
  wellFormed : tree.WellFormed store
  ancestorFree : tree.AncestorFree ancestors
  height_le : tree.height ≤ levels
  linkVisits_le : file.2 + tree.linkVisits ≤ limits.unixfsMaxLinkVisits
  bytes_le : file.1.length + tree.bytes.length ≤ limits.reconstructedBytes

open UnixFsTree (bytesAll heightAll linkVisitsAll WellFormedAll AncestorFreeAll)

/-- The trees of some links can be read one after another. -/
@[mk_iff]
structure UnixFsTree.FitsAll (store : UnixFsBlocks) (limits : UnixFsLimits) (levels : Nat)
    (ancestors : Finset Cid) (file : List UInt8 × Nat) (trees : List UnixFsTree) : Prop where
  wellFormed : WellFormedAll store trees
  ancestorFree : AncestorFreeAll ancestors trees
  height_le : heightAll trees ≤ levels
  linkVisits_le : file.2 + linkVisitsAll trees ≤ limits.unixfsMaxLinkVisits
  bytes_le : file.1.length + (bytesAll trees).length ≤ limits.reconstructedBytes

/-- The file after a tree. -/
def UnixFsTree.write (file : List UInt8 × Nat) (tree : UnixFsTree) : List UInt8 × Nat :=
  (file.1 ++ tree.bytes, file.2 + tree.linkVisits)

/-- A file after all of them are written. -/
def UnixFsTree.writeAll (file : List UInt8 × Nat) (trees : List UnixFsTree) : List UInt8 × Nat :=
  (file.1 ++ bytesAll trees, file.2 + linkVisitsAll trees)

open UnixFsTree (FitsAll writeAll fits_iff fitsAll_iff)

/-- The file so far is within the limits. -/
def WithinLimits (limits : UnixFsLimits) (file : List UInt8 × Nat) : Prop :=
  file.1.length ≤ limits.reconstructedBytes ∧ file.2 ≤ limits.unixfsMaxLinkVisits

variable {tree : UnixFsTree} {trees : List UnixFsTree} {levels : Nat}

/-- The first tree is read before the others, after one more link. -/
theorem fitsAll_cons :
    FitsAll store limits levels ancestors file (tree :: trees) ↔
      tree.Fits store limits levels ancestors (file.1, file.2 + 1) ∧
        FitsAll store limits levels ancestors (tree.write (file.1, file.2 + 1)) trees := by
  simp only [fits_iff, fitsAll_iff, WellFormedAll, AncestorFreeAll, heightAll, linkVisitsAll,
    bytesAll, UnixFsTree.write, List.length_append, max_le_iff]
  constructor
  · rintro ⟨⟨hwell, hwells⟩, ⟨hfree, hfrees⟩, ⟨hheight, hheights⟩, hvisits, hbytes⟩
    exact ⟨⟨hwell, hfree, hheight, by omega, by omega⟩, hwells, hfrees, hheights, by omega,
      by omega⟩
  · rintro ⟨⟨hwell, hfree, hheight, -, -⟩, hwells, hfrees, hheights, hvisits, hbytes⟩
    exact ⟨⟨hwell, hwells⟩, ⟨hfree, hfrees⟩, ⟨hheight, hheights⟩, by omega, by omega⟩

theorem writeAll_cons :
    writeAll file (tree :: trees) = writeAll (tree.write (file.1, file.2 + 1)) trees := by
  simp [writeAll, UnixFsTree.write, bytesAll, linkVisitsAll, Nat.add_assoc]

theorem fitsAll_nil :
    FitsAll store limits levels ancestors file [] ↔ WithinLimits limits file :=
  ⟨fun h => ⟨h.bytes_le, h.linkVisits_le⟩,
    fun h => ⟨trivial, trivial, Nat.zero_le _, h.2, h.1⟩⟩

theorem writeAll_nil : writeAll file [] = file := by
  rw [writeAll, bytesAll, List.append_nil]
  rfl

theorem UnixFsTree.FitsAll.within_before
    (h : FitsAll store limits levels ancestors file trees) : WithinLimits limits file :=
  ⟨le_trans (Nat.le_add_right _ _) h.bytes_le, le_trans (Nat.le_add_right _ _) h.linkVisits_le⟩

theorem UnixFsTree.Fits.within
    (h : tree.Fits store limits levels ancestors file) : WithinLimits limits (tree.write file) := by
  rw [WithinLimits, UnixFsTree.write, List.length_append]
  exact ⟨h.bytes_le, h.linkVisits_le⟩

/-- The recursion reads exactly the trees that fit, with some levels left. -/
def ReadsTrees (store : UnixFsBlocks) (limits : UnixFsLimits) (levels : Nat) : Prop :=
  ∀ (ancestors : Finset Cid) (cid : Cid) (file after : List UInt8 × Nat),
    (∀ ancestor ∈ ancestors, ancestor.codec = dagPbCodec) → WithinLimits limits file →
    (visit store limits levels ancestors cid file = .ok after ↔
      ∃ tree : UnixFsTree, tree.cid = cid ∧ tree.Fits store limits levels ancestors file ∧
        after = tree.write file)

theorem size_check_iff {sizes : List Nat} {visits : Nat} :
    (¬ (sizes.head?.any fun expected =>
        (tree.write (file.1, visits)).1.length - file.1.length != expected) = true) ↔
      ∀ size ∈ sizes.head?, size = tree.bytes.length := by
  rw [UnixFsTree.write, List.length_append, Nat.add_sub_cancel_left]
  cases sizes with
  | nil => simp
  | cons size sizes =>
    simp only [List.head?_cons, Option.any_some, bne_iff_ne, ne_eq, not_not,
      Option.mem_some_iff, forall_eq']
    exact eq_comm

/-- Sizes that are declared for all links are checked one by one. -/
theorem declared_cons_iff {sizes : List Nat}
    (h : sizes = [] ∨ sizes.length = trees.length + 1) :
    (sizes = [] ∨ sizes = (tree :: trees).map fun tree => tree.bytes.length) ↔
      (∀ size ∈ sizes.head?, size = tree.bytes.length) ∧
        (sizes.tail = [] ∨ sizes.tail = trees.map fun tree => tree.bytes.length) := by
  cases sizes with
  | nil => simp
  | cons size sizes =>
    have hlength : sizes.length = trees.length := by
      simpa only [reduceCtorEq, List.length_cons, Nat.add_right_cancel_iff, false_or] using h
    have hnone : sizes = [] → sizes = trees.map fun tree => tree.bytes.length := by
      rintro rfl
      rw [List.length_eq_zero_iff.mp hlength.symm, List.map_nil]
    simp [or_iff_right_of_imp hnone]

-- Strategy: induction on the links. The sizes are all there or none is, so the sizes
-- that are left say which.
/-- The children that are read are trees that fit one after another. -/
theorem visitLinks_eq_ok (hreads : ReadsTrees store limits levels)
    (hancestors : ∀ ancestor ∈ ancestors, ancestor.codec = dagPbCodec) {links : List Cid}
    {sizes : List Nat} (hsizes : sizes = [] ∨ sizes.length = links.length)
    (hfile : WithinLimits limits file) :
    visitLinks limits (visit store limits levels ancestors) links sizes file = .ok after ↔
      ∃ trees : List UnixFsTree, links = trees.map UnixFsTree.cid ∧
        (sizes = [] ∨ sizes = trees.map fun tree => tree.bytes.length) ∧
        FitsAll store limits levels ancestors file trees ∧ after = writeAll file trees := by
  induction links generalizing sizes file with
  | nil =>
    rw [visitLinks, Except.ok.injEq]
    constructor
    · rintro rfl
      exact ⟨[], rfl, hsizes.imp_right List.length_eq_zero_iff.mp, fitsAll_nil.mpr hfile,
        writeAll_nil.symm⟩
    · rintro ⟨trees, htrees, _, _, rfl⟩
      rw [List.map_eq_nil_iff.mp htrees.symm, writeAll_nil]
  | cons child links ih =>
    rw [visitLinks, ite_error_eq_ok, bind_eq_ok]
    have htail : sizes.tail = [] ∨ sizes.tail.length = links.length := by
      rw [List.length_tail]
      refine hsizes.imp (fun h => ?_) fun h => ?_
      · rw [h, List.tail_nil]
      · rw [h, List.length_cons, Nat.add_sub_cancel]
    constructor
    · rintro ⟨hvisits, _, hmid, hrest⟩
      obtain ⟨tree, hcid, hfits, rfl⟩ :=
        (hreads _ _ (file.1, file.2 + 1) _ hancestors ⟨hfile.1, Nat.le_of_not_lt hvisits⟩).mp hmid
      obtain ⟨hsize, hrest⟩ := ite_error_eq_ok.mp hrest
      obtain ⟨trees, hlinks, hdeclared, hall, rfl⟩ := (ih htail hfits.within).mp hrest
      refine ⟨tree :: trees, by rw [List.map_cons, hcid, hlinks], ?_,
        fitsAll_cons.mpr ⟨hfits, hall⟩, writeAll_cons.symm⟩
      refine (declared_cons_iff ?_).mpr ⟨size_check_iff.mp hsize, hdeclared⟩
      rw [hlinks, List.length_cons, List.length_map] at hsizes
      exact hsizes
    · rintro ⟨trees, hlinks, hdeclared, hall, rfl⟩
      cases trees with
      | nil => cases hlinks
      | cons tree trees =>
        obtain ⟨hcid, hlinks⟩ := List.cons.inj hlinks
        obtain ⟨hfits, hall⟩ := fitsAll_cons.mp hall
        have hvisits : file.2 + 1 ≤ limits.unixfsMaxLinkVisits :=
          le_trans (Nat.le_add_right _ _) hfits.linkVisits_le
        refine ⟨not_lt.mpr hvisits, _,
          (hreads _ _ (file.1, file.2 + 1) _ hancestors ⟨hfile.1, hvisits⟩).mpr
            ⟨tree, hcid.symm, hfits, rfl⟩, ?_⟩
        rw [hlinks, List.length_cons, List.length_map] at hsizes
        obtain ⟨hsize, hdeclared⟩ := (declared_cons_iff hsizes).mp hdeclared
        exact ite_error_eq_ok.mpr ⟨size_check_iff.mpr hsize,
          (ih htail hfits.within).mpr ⟨trees, hlinks, hdeclared, hall, writeAll_cons⟩⟩

variable {cid : Cid}

theorem visit_succ_eq_ok :
    visit store limits (levels + 1) ancestors cid file = .ok after ↔
      (∃ out, readBlock store limits file.1 ancestors cid = .ok (.whole out) ∧
        after = (out, file.2)) ∨
      ∃ out node unixfs,
        readBlock store limits file.1 ancestors cid = .ok (.file out node unixfs) ∧
        visitLinks limits (visit store limits levels (insert cid ancestors)) node.links
          unixfs.blocksizes (out, file.2) = .ok after ∧
        ∀ size ∈ unixfs.filesize, size = after.1.length - file.1.length := by
  rw [visit, bind_eq_ok]
  constructor
  · rintro ⟨content, hcontent, h⟩
    cases content with
    | whole out => exact .inl ⟨out, hcontent, (Except.ok.inj h).symm⟩
    | file out node unixfs =>
      obtain ⟨_, hlinks, h⟩ := bind_eq_ok.mp h
      obtain ⟨_, hsize, h⟩ := bind_eq_ok.mp h
      cases h
      exact .inr ⟨out, node, unixfs, hcontent, hlinks, validateFilesize_eq_ok.mp hsize⟩
  · rintro (⟨out, hcontent, rfl⟩ | ⟨out, node, unixfs, hcontent, hlinks, hsize⟩)
    · exact ⟨_, hcontent, rfl⟩
    · exact ⟨_, hcontent, bind_eq_ok.mpr ⟨after, hlinks, bind_eq_ok.mpr
        ⟨(), validateFilesize_eq_ok.mpr hsize, rfl⟩⟩⟩

theorem UnixFsTree.height_pos (tree : UnixFsTree) : 0 < tree.height := by
  cases tree with
  | leaf cid bytes => exact Nat.one_pos
  | node cid data children => exact Nat.succ_pos _

/-- A block of bytes fits if it is stored and within the limit. -/
theorem leaf_fits_iff {bytes : List UInt8} (hfile : WithinLimits limits file)
    (hancestors : ∀ ancestor ∈ ancestors, ancestor.codec = dagPbCodec) :
    (UnixFsTree.leaf cid bytes).Fits store limits (levels + 1) ancestors file ↔
      cid.codec = rawCodec ∧ store.blocks cid = some bytes ∧
        file.1.length + bytes.length ≤ limits.reconstructedBytes := by
  constructor
  · intro h
    exact ⟨h.wellFormed.1, h.wellFormed.2, h.bytes_le⟩
  · rintro ⟨hraw, hblock, hlimit⟩
    refine ⟨⟨hraw, hblock⟩, fun hcid => ?_, Nat.le_add_left _ _, hfile.2, hlimit⟩
    -- A block of bytes has another codec than the nodes above it.
    exact absurd (hraw.symm.trans (hancestors cid hcid)) (by decide)

variable {data : List UInt8}

/-- A node fits if its children do, one level below it. -/
theorem node_fits_iff {children : List UnixFsTree} :
    (UnixFsTree.node cid data children).Fits store limits (levels + 1) ancestors file ↔
      StoredFile store cid data children ∧ cid ∉ ancestors ∧
        FitsAll store limits levels (insert cid ancestors) (file.1 ++ data, file.2) children := by
  simp only [fits_iff, fitsAll_iff, UnixFsTree.WellFormed, UnixFsTree.AncestorFree,
    UnixFsTree.height, UnixFsTree.linkVisits, UnixFsTree.bytes, List.length_append,
    Nat.add_le_add_iff_right, Nat.add_assoc, and_assoc]
  exact and_congr_right fun _ => and_left_comm

theorem write_node {children : List UnixFsTree} :
    (UnixFsTree.node cid data children).write file =
      writeAll (file.1 ++ data, file.2) children := by
  rw [UnixFsTree.write, UnixFsTree.bytes, ← List.append_assoc]
  rfl

theorem length_writeAll_sub :
    (writeAll (file.1 ++ data, file.2) trees).1.length - file.1.length =
      (data ++ bytesAll trees).length := by
  simp [writeAll, Nat.add_sub_cancel_left]

-- Strategy: induction on the levels. A block that is read whole is a leaf, or a node
-- without children. The levels left for the children of a node are one less.
/-- The recursion reads exactly the trees that fit. -/
theorem visit_eq_ok (levels : Nat) : ReadsTrees store limits levels := by
  induction levels with
  | zero =>
    intro ancestors cid file after hancestors hfile
    constructor
    · intro h
      cases h
    · rintro ⟨tree, _, hfits, _⟩
      exact absurd hfits.height_le (not_le.mpr tree.height_pos)
  | succ levels ih =>
    intro ancestors cid file after hancestors hfile
    rw [visit_succ_eq_ok]
    have hbelow : cid.codec = dagPbCodec →
        ∀ ancestor ∈ insert cid ancestors, ancestor.codec = dagPbCodec :=
      fun hcid => (Finset.forall_mem_insert _ _ _).mpr ⟨hcid, hancestors⟩
    constructor
    · rintro (⟨out, hread, rfl⟩ | ⟨out, node, unixfs, hread, hlinks, hsize⟩)
      · -- A block of bytes, or a node of type raw, which has no links.
        obtain ⟨bytes, ⟨hraw, hblock⟩ | ⟨hcid, node, unixfs, hstored, htype, hdata, hsize⟩, hlimit,
          rfl⟩ := (readBlock_whole_iff hfile.1).mp hread
        · exact ⟨.leaf cid bytes, rfl,
            (leaf_fits_iff hfile hancestors).mpr ⟨hraw, hblock, hlimit⟩, rfl⟩
        · obtain ⟨hlinks, hsizes⟩ := hstored.of_raw htype
          rw [← List.length_append] at hlimit
          refine ⟨.node cid bytes [], rfl, node_fits_iff.mpr ⟨⟨node, unixfs, hstored, hdata, hlinks,
            .inl hsizes, ?_⟩, hcid, fitsAll_nil.mpr ⟨hlimit, hfile.2⟩⟩, ?_⟩
          · rw [bytesAll, List.append_nil]
            exact hsize
          · rw [write_node, writeAll_nil]
      · obtain ⟨hcid, hstored, htype, hsizes, hlimit, rfl⟩ := (readBlock_file_iff hfile.1).mp hread
        rw [← List.length_append] at hlimit
        have hwithin : WithinLimits limits (file.1 ++ unixfs.data.getD [], file.2) :=
          ⟨hlimit, hfile.2⟩
        obtain ⟨trees, htrees, hdeclared, hall, rfl⟩ :=
          (visitLinks_eq_ok ih (hbelow hstored.1) hsizes hwithin).mp hlinks
        rw [length_writeAll_sub] at hsize
        exact ⟨.node cid (unixfs.data.getD []) trees, rfl, node_fits_iff.mpr
          ⟨⟨node, unixfs, hstored, rfl, htrees, hdeclared, hsize⟩, hcid, hall⟩, write_node.symm⟩
    · rintro ⟨tree, rfl, hfits, rfl⟩
      cases tree with
      | leaf cid bytes =>
        obtain ⟨hraw, hblock, hlimit⟩ := (leaf_fits_iff hfile hancestors).mp hfits
        exact .inl ⟨_, (readBlock_whole_iff hfile.1).mpr
          ⟨bytes, .inl ⟨hraw, hblock⟩, hlimit, rfl⟩, rfl⟩
      | node cid data children =>
        obtain ⟨⟨node, unixfs, hstored, rfl, hlinks, hdeclared, hsize⟩, hcid, hall⟩ :=
          node_fits_iff.mp hfits
        rw [write_node]
        obtain ⟨htype, hnone, _⟩ | htype := hstored.2.2
        · rw [hnone] at hlinks
          obtain rfl := List.map_eq_nil_iff.mp hlinks.symm
          have hlimit := (fitsAll_nil.mp hall).1
          rw [List.length_append] at hlimit
          rw [bytesAll, List.append_nil] at hsize
          exact .inl ⟨_, (readBlock_whole_iff hfile.1).mpr ⟨_, .inr ⟨hcid, node, unixfs, hstored,
            htype, rfl, hsize⟩, hlimit, rfl⟩, writeAll_nil⟩
        · have hsizes : unixfs.blocksizes = [] ∨
              unixfs.blocksizes.length = node.links.length := by
            refine hdeclared.imp_right fun h => ?_
            rw [h, hlinks, List.length_map, List.length_map]
          have hwithin := hall.within_before
          have hlimit := hwithin.1
          rw [List.length_append] at hlimit
          refine .inr ⟨_, node, unixfs, (readBlock_file_iff hfile.1).mpr
            ⟨hcid, hstored, htype, hsizes, hlimit, rfl⟩,
            (visitLinks_eq_ok ih (hbelow hstored.1) hsizes hwithin).mpr
              ⟨children, hlinks, hdeclared, hall, rfl⟩, ?_⟩
          rw [length_writeAll_sub]
          exact hsize

theorem fits_start_iff :
    tree.Fits store limits levels ∅ ([], 0) ↔
      tree.WellFormed store ∧ tree.AncestorFree ∅ ∧ tree.height ≤ levels ∧
        tree.linkVisits ≤ limits.unixfsMaxLinkVisits ∧
        tree.bytes.length ≤ limits.reconstructedBytes := by
  simp only [fits_iff, List.length_nil, Nat.zero_add]

end Trees

section Files

variable (store : UnixFsBlocks) (limits : UnixFsLimits)

/-- The walk from a root always ends, and not at a broken assumption. It ends with a
    file exactly when the blocks below the root form a tree without a block below
    itself, within the limits, where all blocks are there and agree with their sizes.
    The file is what the tree holds. -/
theorem reconstructFile_iff_tree (root : Cid) :
    ∃ result : Except TrustlessArtifactError (List UInt8),
      (∃ fuel, ∀ more, fuel ≤ more →
        reconstructFile store limits root more = some (.finished result)) ∧
      ∀ bytes, result = .ok bytes ↔
        ∃ tree : UnixFsTree, tree.cid = root ∧ tree.WellFormed store ∧ tree.AncestorFree ∅ ∧
          tree.height ≤ limits.unixfsMaxDepth ∧
          tree.linkVisits ≤ limits.unixfsMaxLinkVisits ∧
          tree.bytes.length ≤ limits.reconstructedBytes ∧ bytes = tree.bytes := by
  have hyields : Yields (traversalStep store limits) (startTraversal root)
      (.finished ((visit store limits limits.unixfsMaxDepth ∅ root ([], 0)).map Prod.fst)) := by
    rw [yields_visit limits.unixfsMaxDepth (startTraversal root) root 1 _ rfl (Nat.add_comm _ _)]
    simp only [startTraversal]
    -- Nothing is above the root, so its bytes are the file.
    cases visit store limits limits.unixfsMaxDepth ∅ root ([], 0) <;> rfl
  refine ⟨_, exists_run_of_yields hyields, fun bytes => ?_⟩
  have hnone : ∀ ancestor ∈ (∅ : Finset Cid), ancestor.codec = dagPbCodec :=
    fun ancestor h => absurd h (Finset.notMem_empty ancestor)
  have hstart : WithinLimits limits ([], 0) := ⟨Nat.zero_le _, Nat.zero_le _⟩
  simp only [map_eq_ok, visit_eq_ok _ _ _ _ _ hnone hstart, fits_start_iff]
  constructor
  · rintro ⟨_, ⟨tree, hroot, hfits, rfl⟩, rfl⟩
    exact ⟨tree, hroot, hfits.1, hfits.2.1, hfits.2.2.1, hfits.2.2.2.1, hfits.2.2.2.2,
      List.nil_append _⟩
  · rintro ⟨tree, hroot, hwell, hfree, hheight, hvisits, hbytes, rfl⟩
    exact ⟨_, ⟨tree, hroot, ⟨hwell, hfree, hheight, hvisits, hbytes⟩, rfl⟩,
      (List.nil_append _).symm⟩

end Files

end Railgun
