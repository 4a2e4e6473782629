import Railgun.Core.WalletDelta

/-!
# Scanning, Rewinding and Replaying

A wallet after a scan is described by what the chain holds, not by how the scan
went: every note created so far, each with the source of its nullifier if that
has been published. Applying the next blocks, in deltas of any size, takes one
such wallet to the next, and a rewind takes it to the one below a block.

The order of the entries of a delta does not matter, and neither does the order
of the notes of a wallet.

## Main definitions

* `BlockRows`: The notes and the nullifiers of a block.
* `CoversBlocks`: A delta holds the rows of some consecutive blocks.

## Theorems

* `applyWalletDelta_scanned`: A delta takes the wallet of a chain to that of the
  longer chain.
* `rewindWalletUtxos_scanned`: A rewind gives the wallet of the blocks below.
* `rewind_replay_eq_scan`: Rewinding and replaying is scanning once.
-/

namespace Railgun

/-- The notes and nullifiers of a block. -/
structure BlockRows where
  blockNumber : Nat
  utxos : List ScannedUtxo
  nullifiers : List SpentNullifier

/-- What a note is spent by. -/
def SpentNullifier.key (spent : SpentNullifier) : Nat × U256 := (spent.tree, spent.nullifier)

/-- The notes of some blocks. -/
def blockUtxos (blocks : List BlockRows) : List ScannedUtxo := blocks.flatMap BlockRows.utxos

/-- The nullifiers of some blocks. -/
def blockNullifiers (blocks : List BlockRows) : List SpentNullifier :=
  blocks.flatMap BlockRows.nullifiers

section Scan

variable (keys : WalletScanKeys)

/-- Rows in the order of a chain: each leaf is created once, and each nullifier
    is published once, not before the block of its note. -/
structure ChainOrder (blocks : List BlockRows) : Prop where
  increasing : blocks.Pairwise fun rows later => rows.blockNumber < later.blockNumber
  created : ∀ rows ∈ blocks, ∀ utxo ∈ rows.utxos, utxo.source.blockNumber = rows.blockNumber
  published : ∀ rows ∈ blocks, ∀ spent ∈ rows.nullifiers,
    spent.source.blockNumber = rows.blockNumber
  places_distinct : ((blockUtxos blocks).map ScannedUtxo.place).Nodup
  nullifiers_distinct : ((blockNullifiers blocks).map SpentNullifier.key).Nodup
  not_before : ∀ utxo ∈ blockUtxos blocks, ∀ spent ∈ blockNullifiers blocks,
    spent.key = (utxo.tree, utxo.nullifier keys) →
    utxo.source.blockNumber ≤ spent.source.blockNumber

/-- A delta has the rows of some blocks. -/
structure CoversBlocks (delta : WalletLogDelta) (blocks : List BlockRows) : Prop where
  utxos : delta.utxos.Perm (blockUtxos blocks)
  nullifiers : delta.nullifiers.Perm (blockNullifiers blocks)

/-- Where a note is spent by some nullifiers. -/
def spentSource (nullifiers : List SpentNullifier) (utxo : ScannedUtxo) : Option UtxoSource :=
  spentSourceForUtxo keys utxo (nullifierSources nullifiers)

/-- The wallet of a chain: every note, with the source of its nullifier. -/
def scannedWallet (utxos : List ScannedUtxo) (nullifiers : List SpentNullifier) :
    List WalletUtxo :=
  utxos.map fun utxo => ⟨utxo, spentSource keys nullifiers utxo⟩

variable {keys}

theorem nullifierSources_keys (nullifiers : List SpentNullifier) :
    (nullifierSources nullifiers).map Prod.fst = (nullifiers.map SpentNullifier.key).reverse := by
  rw [nullifierSources, List.map_reverse, List.map_map]
  rfl

variable {nullifiers : List SpentNullifier}

/-- A note is spent by the row with its tree and nullifier. -/
theorem spentSource_eq_some
    (h : (nullifiers.map SpentNullifier.key).Nodup) {utxo : ScannedUtxo} {source : UtxoSource} :
    spentSource keys nullifiers utxo = some source ↔
      ∃ spent ∈ nullifiers, spent.key = (utxo.tree, utxo.nullifier keys) ∧
        spent.source = source := by
  have hkeys : ((nullifierSources nullifiers).map Prod.fst).Nodup := by
    rw [nullifierSources_keys]
    exact List.nodup_reverse.mpr h
  rw [spentSource, spentSourceForUtxo, lookup_eq_some_iff_mem hkeys, nullifierSources,
    List.mem_reverse, List.mem_map]
  constructor
  · rintro ⟨spent, hmem, heq⟩
    exact ⟨spent, hmem, congrArg Prod.fst heq, congrArg Prod.snd heq⟩
  · rintro ⟨spent, hmem, hkey, hsource⟩
    exact ⟨spent, hmem, Prod.ext hkey hsource⟩

theorem spentSource_perm {other : List SpentNullifier}
    (h : (nullifiers.map SpentNullifier.key).Nodup) (hperm : other.Perm nullifiers)
    (utxo : ScannedUtxo) : spentSource keys other utxo = spentSource keys nullifiers utxo := by
  have hother : (other.map SpentNullifier.key).Nodup := (hperm.map _).nodup_iff.mpr h
  ext source
  rw [spentSource_eq_some h, spentSource_eq_some hother]
  simp only [hperm.mem_iff]

variable {more : List SpentNullifier}

theorem spentSource_append
    (h : ((nullifiers ++ more).map SpentNullifier.key).Nodup) (utxo : ScannedUtxo) :
    spentSource keys (nullifiers ++ more) utxo
      = (spentSource keys nullifiers utxo).or (spentSource keys more utxo) := by
  have hparts := h
  rw [List.map_append, List.nodup_append] at hparts
  cases hfirst : spentSource keys nullifiers utxo with
  | none =>
    rw [Option.none_or]
    ext source
    rw [spentSource_eq_some h, spentSource_eq_some hparts.2.1]
    constructor
    · rintro ⟨spent, hmem, hspent⟩
      rcases List.mem_append.mp hmem with hmem | hmem
      · have hsome := (spentSource_eq_some hparts.1).mpr ⟨spent, hmem, hspent⟩
        exact absurd (hfirst.symm.trans hsome) nofun
      · exact ⟨spent, hmem, hspent⟩
    · rintro ⟨spent, hmem, hspent⟩
      exact ⟨spent, List.mem_append_right _ hmem, hspent⟩
  | some source =>
    rw [Option.some_or, spentSource_eq_some h]
    obtain ⟨spent, hmem, hspent⟩ := (spentSource_eq_some hparts.1).mp hfirst
    exact ⟨spent, List.mem_append_left _ hmem, hspent⟩

theorem scannedWallet_places (keys : WalletScanKeys) (utxos : List ScannedUtxo)
    (nullifiers : List SpentNullifier) :
    (scannedWallet keys utxos nullifiers).map (fun entry => entry.utxo.place)
      = utxos.map ScannedUtxo.place := by
  rw [scannedWallet, List.map_map]
  rfl

/-- Later nullifiers mark the notes found before. -/
theorem markSpent_scannedWallet
    (h : ((nullifiers ++ more).map SpentNullifier.key).Nodup) (utxos : List ScannedUtxo) :
    markSpent keys (nullifierSources more) (scannedWallet keys utxos nullifiers)
      = scannedWallet keys utxos (nullifiers ++ more) := by
  rw [markSpent, scannedWallet, scannedWallet, List.map_map]
  refine List.map_congr_left fun utxo _ => ?_
  rw [spentSource_append h]
  dsimp only [Function.comp_apply]
  cases spentSource keys nullifiers utxo with
  | none => rfl
  | some source => rfl

variable {utxos : List ScannedUtxo}

theorem newWalletUtxos_scannedWallet (h : ((nullifiers ++ more).map SpentNullifier.key).Nodup)
    (hunspent : ∀ utxo ∈ utxos, spentSource keys nullifiers utxo = none)
    {existing : List (Nat × Nat)} (hnew : ∀ utxo ∈ utxos, utxo.place ∉ existing)
    (hdistinct : (utxos.map ScannedUtxo.place).Nodup) :
    newWalletUtxos keys (nullifierSources more) existing utxos
      = scannedWallet keys utxos (nullifiers ++ more) := by
  rw [newWalletUtxos, keepFirst_eq_map _ hnew hdistinct, scannedWallet]
  refine List.map_congr_left fun utxo hutxo => ?_
  rw [spentSource_append h, hunspent utxo hutxo, Option.none_or]
  rfl

variable {walletUtxos : List WalletUtxo}

theorem dedupeWalletUtxos_eq (h : (walletUtxos.map fun entry => entry.utxo.place).Nodup) :
    dedupeWalletUtxos walletUtxos = walletUtxos := by
  rw [dedupeWalletUtxos, keepFirst_eq_map id (fun _ _ => List.not_mem_nil) h, List.map_id]

/-- A delta takes the wallet of a chain to the wallet of the longer chain, if no
    earlier nullifier spends a note of the delta. -/
theorem applyWalletDelta_scannedWallet {delta : WalletLogDelta}
    (hplaces : ((utxos ++ delta.utxos).map ScannedUtxo.place).Nodup)
    (hnullifiers : ((nullifiers ++ delta.nullifiers).map SpentNullifier.key).Nodup)
    (hunspent : ∀ utxo ∈ delta.utxos, spentSource keys nullifiers utxo = none)
    (hwallet : walletUtxos.Perm (scannedWallet keys utxos nullifiers)) :
    (applyWalletDeltaToVecWithOutcome keys walletUtxos delta).1.Perm
      (scannedWallet keys (utxos ++ delta.utxos) (nullifiers ++ delta.nullifiers)) := by
  have hparts := hplaces
  rw [List.map_append, List.nodup_append] at hparts
  have hmarked : (markSpent keys (nullifierSources delta.nullifiers) walletUtxos).Perm
      (scannedWallet keys utxos (nullifiers ++ delta.nullifiers)) := by
    rw [← markSpent_scannedWallet hnullifiers]
    exact hwallet.map _
  have hexisting : ((markSpent keys (nullifierSources delta.nullifiers) walletUtxos).map
      fun entry => entry.utxo.place).Perm (utxos.map ScannedUtxo.place) := by
    rw [← scannedWallet_places keys utxos (nullifiers ++ delta.nullifiers)]
    exact hmarked.map _
  have hadded : newWalletUtxos keys (nullifierSources delta.nullifiers)
      ((markSpent keys (nullifierSources delta.nullifiers) walletUtxos).map
        fun entry => entry.utxo.place) delta.utxos
      = scannedWallet keys delta.utxos (nullifiers ++ delta.nullifiers) := by
    refine newWalletUtxos_scannedWallet hnullifiers hunspent (fun utxo hutxo hmem => ?_) hparts.2.1
    exact hparts.2.2 _ (hexisting.mem_iff.mp hmem) _ (List.mem_map_of_mem hutxo) rfl
  have hall : (markSpent keys (nullifierSources delta.nullifiers) walletUtxos
      ++ scannedWallet keys delta.utxos (nullifiers ++ delta.nullifiers)).Perm
      (scannedWallet keys (utxos ++ delta.utxos) (nullifiers ++ delta.nullifiers)) := by
    rw [scannedWallet, scannedWallet, List.map_append]
    exact hmarked.append_right _
  rw [applyWalletDeltaToVecWithOutcome]
  rw [hadded, dedupeWalletUtxos_eq]
  · exact hall
  · rw [(hall.map _).nodup_iff, scannedWallet_places]
    exact hplaces

theorem scannedWallet_perm {otherUtxos : List ScannedUtxo} {otherNullifiers : List SpentNullifier}
    (h : (nullifiers.map SpentNullifier.key).Nodup) (hutxos : otherUtxos.Perm utxos)
    (hnullifiers : otherNullifiers.Perm nullifiers) :
    (scannedWallet keys otherUtxos otherNullifiers).Perm
      (scannedWallet keys utxos nullifiers) := by
  have hsame : scannedWallet keys otherUtxos otherNullifiers
      = scannedWallet keys otherUtxos nullifiers := by
    refine List.map_congr_left fun utxo _ => ?_
    rw [spentSource_perm h hnullifiers]
  rw [hsame]
  exact hutxos.map _

theorem blockUtxos_append (blocks more : List BlockRows) :
    blockUtxos (blocks ++ more) = blockUtxos blocks ++ blockUtxos more := List.flatMap_append

theorem blockNullifiers_append (blocks more : List BlockRows) :
    blockNullifiers (blocks ++ more) = blockNullifiers blocks ++ blockNullifiers more :=
  List.flatMap_append

variable {blocks : List BlockRows}

theorem ChainOrder.left {more : List BlockRows} (h : ChainOrder keys (blocks ++ more)) :
    ChainOrder keys blocks where
  increasing := (List.pairwise_append.mp h.increasing).1
  created := fun rows hrows => h.created rows (List.mem_append_left _ hrows)
  published := fun rows hrows => h.published rows (List.mem_append_left _ hrows)
  places_distinct := by
    have hplaces := h.places_distinct
    rw [blockUtxos_append, List.map_append, List.nodup_append] at hplaces
    exact hplaces.1
  nullifiers_distinct := by
    have hnullifiers := h.nullifiers_distinct
    rw [blockNullifiers_append, List.map_append, List.nodup_append] at hnullifiers
    exact hnullifiers.1
  not_before := by
    intro utxo hutxo spent hspent
    refine h.not_before utxo ?_ spent ?_
    · rw [blockUtxos_append]
      exact List.mem_append_left _ hutxo
    · rw [blockNullifiers_append]
      exact List.mem_append_left _ hspent

/-- No note is spent before its block. -/
theorem ChainOrder.unspent {more : List BlockRows} (h : ChainOrder keys (blocks ++ more))
    {utxo : ScannedUtxo} (hutxo : utxo ∈ blockUtxos more) :
    spentSource keys (blockNullifiers blocks) utxo = none := by
  rw [Option.eq_none_iff_forall_ne_some]
  intro source hsource
  obtain ⟨spent, hspent, hkey, -⟩ := (spentSource_eq_some h.left.nullifiers_distinct).mp hsource
  have hbefore := h.not_before utxo
    (by rw [blockUtxos_append]; exact List.mem_append_right _ hutxo) spent
    (by rw [blockNullifiers_append]; exact List.mem_append_left _ hspent) hkey
  obtain ⟨later, hlater, hcreated⟩ := List.mem_flatMap.mp hutxo
  obtain ⟨earlier, hearlier, hpublished⟩ := List.mem_flatMap.mp hspent
  have hutxoBlock := h.created later (List.mem_append_right _ hlater) utxo hcreated
  have hspentBlock := h.published earlier (List.mem_append_left _ hearlier) spent hpublished
  have horder := (List.pairwise_append.mp h.increasing).2.2 earlier hearlier later hlater
  omega

/-- Applying a delta is scanning its blocks after the others. -/
theorem applyWalletDelta_scanned {more : List BlockRows} (h : ChainOrder keys (blocks ++ more))
    (hwallet : walletUtxos.Perm (scannedWallet keys (blockUtxos blocks) (blockNullifiers blocks)))
    {delta : WalletLogDelta} (hdelta : CoversBlocks delta more) :
    (applyWalletDeltaToVecWithOutcome keys walletUtxos delta).1.Perm
      (scannedWallet keys (blockUtxos (blocks ++ more)) (blockNullifiers (blocks ++ more))) := by
  have hutxos : (blockUtxos blocks ++ delta.utxos).Perm (blockUtxos (blocks ++ more)) := by
    rw [blockUtxos_append]
    exact hdelta.utxos.append_left _
  have hnullifiers : (blockNullifiers blocks ++ delta.nullifiers).Perm
      (blockNullifiers (blocks ++ more)) := by
    rw [blockNullifiers_append]
    exact hdelta.nullifiers.append_left _
  refine (applyWalletDelta_scannedWallet ?_ ?_ ?_ hwallet).trans
    (scannedWallet_perm h.nullifiers_distinct hutxos hnullifiers)
  · exact (hutxos.map _).nodup_iff.mpr h.places_distinct
  · exact (hnullifiers.map _).nodup_iff.mpr h.nullifiers_distinct
  · exact fun utxo hutxo => h.unspent (hdelta.utxos.mem_iff.mp hutxo)

/-- Any partition of the next blocks into deltas takes the wallet of a chain to
    the wallet of the longer chain. -/
theorem applyWalletDeltas_scanned {deltas : List WalletLogDelta} {parts : List (List BlockRows)}
    (hdeltas : List.Forall₂ CoversBlocks deltas parts)
    (h : ChainOrder keys (blocks ++ parts.flatten)) (hwallet : walletUtxos.Perm
      (scannedWallet keys (blockUtxos blocks) (blockNullifiers blocks))) :
    (applyWalletDeltas keys walletUtxos deltas).Perm
      (scannedWallet keys (blockUtxos (blocks ++ parts.flatten))
        (blockNullifiers (blocks ++ parts.flatten))) := by
  -- The blocks applied so far grow from the left, part by part.
  induction hdeltas generalizing blocks walletUtxos with
  | nil =>
    rw [List.flatten_nil, List.append_nil]
    exact hwallet
  | @cons delta part deltas parts hdelta hdeltas ih =>
    rw [List.flatten_cons, ← List.append_assoc] at h ⊢
    exact ih h (applyWalletDelta_scanned h.left hwallet hdelta)

/-- The blocks before one. -/
def blocksBelow (blocks : List BlockRows) (fromBlock : Nat) : List BlockRows :=
  blocks.filter fun rows => rows.blockNumber < fromBlock

/-- The blocks from one on. -/
def blocksFrom (blocks : List BlockRows) (fromBlock : Nat) : List BlockRows :=
  blocks.filter fun rows => fromBlock ≤ rows.blockNumber

theorem ChainOrder.below_append_from (h : ChainOrder keys blocks)
    (fromBlock : Nat) : blocksBelow blocks fromBlock ++ blocksFrom blocks fromBlock = blocks :=
  filter_append_filter h.increasing fromBlock

theorem ChainOrder.blockUtxos_below (h : ChainOrder keys blocks) (fromBlock : Nat) :
    blockUtxos (blocksBelow blocks fromBlock)
      = (blockUtxos blocks).filter fun utxo => utxo.source.blockNumber < fromBlock := by
  refine flatMap_filter_eq fun rows hrows utxo hutxo => ?_
  rw [h.created rows hrows utxo hutxo]

theorem ChainOrder.blockNullifiers_below (h : ChainOrder keys blocks) (fromBlock : Nat) :
    blockNullifiers (blocksBelow blocks fromBlock)
      = (blockNullifiers blocks).filter
        fun spent => spent.source.blockNumber < fromBlock := by
  refine flatMap_filter_eq fun rows hrows spent hspent => ?_
  rw [h.published rows hrows spent hspent]

theorem spentSource_filter
    (h : (nullifiers.map SpentNullifier.key).Nodup) (fromBlock : Nat) (utxo : ScannedUtxo) :
    spentSource keys
        (nullifiers.filter fun spent => spent.source.blockNumber < fromBlock) utxo
      = (spentSource keys nullifiers utxo).filter
        fun source => source.blockNumber < fromBlock := by
  have hfilter : ((nullifiers.filter fun spent =>
      spent.source.blockNumber < fromBlock).map SpentNullifier.key).Nodup :=
    (List.filter_sublist.map _).nodup h
  ext source
  rw [spentSource_eq_some hfilter, Option.filter_eq_some_iff, spentSource_eq_some h]
  constructor
  · rintro ⟨spent, hmem, hkey, rfl⟩
    obtain ⟨hmem, hblock⟩ := List.mem_filter.mp hmem
    exact ⟨⟨spent, hmem, hkey, rfl⟩, hblock⟩
  · rintro ⟨⟨spent, hmem, hkey, rfl⟩, hblock⟩
    exact ⟨spent, List.mem_filter.mpr ⟨hmem, hblock⟩, hkey, rfl⟩

/-- A rewind leaves what a scan of the blocks below finds. -/
theorem rewindWalletUtxos_scanned (h : ChainOrder keys blocks) (fromBlock : Nat)
    (hwallet : walletUtxos.Perm
      (scannedWallet keys (blockUtxos blocks) (blockNullifiers blocks))) :
    (rewindWalletUtxos walletUtxos fromBlock).1.Perm
      (scannedWallet keys (blockUtxos (blocksBelow blocks fromBlock))
        (blockNullifiers (blocksBelow blocks fromBlock))) := by
  refine ((hwallet.filter _).map _).trans (List.Perm.of_eq ?_)
  rw [h.blockUtxos_below, h.blockNullifiers_below, scannedWallet, scannedWallet, List.filter_map,
    List.map_map]
  refine List.map_congr_left fun utxo _ => ?_
  rw [spentSource_filter h.nullifiers_distinct]
  dsimp only [Function.comp_apply]
  cases spentSource keys (blockNullifiers blocks) utxo with
  | none => rfl
  | some source =>
    by_cases hblock : source.blockNumber < fromBlock
    · simp only [Option.any_some, Option.filter_some, hblock, Nat.not_le.mpr hblock,
        decide_false, decide_true, Bool.false_eq_true, if_false, if_true]
    · simp only [Option.any_some, Option.filter_some, hblock, Nat.le_of_not_lt hblock,
        decide_false, decide_true, Bool.false_eq_true, if_false, if_true]

/-- From an empty wallet, all deltas give the wallet of a scan. -/
theorem scan_eq {parts : List (List BlockRows)} (h : ChainOrder keys parts.flatten)
    {deltas : List WalletLogDelta} (hdeltas : List.Forall₂ CoversBlocks deltas parts) :
    (applyWalletDeltas keys [] deltas).Perm
      (scannedWallet keys (blockUtxos parts.flatten) (blockNullifiers parts.flatten)) := by
  have hempty : ([] : List WalletUtxo).Perm
      (scannedWallet keys (blockUtxos []) (blockNullifiers [])) := .refl _
  exact applyWalletDeltas_scanned hdeltas h hempty

end Scan

/-- However the blocks of a chain are partitioned into deltas, the scan ends in
    the same wallet as the scan of one delta. Rewinding it to a block gives the
    wallet of the scan of the blocks below, and replaying the other blocks gives
    the wallet back. -/
theorem rewind_replay_eq_scan {keys : WalletScanKeys} {blocks : List BlockRows}
    (h : ChainOrder keys blocks) {parts : List (List BlockRows)} (hparts : parts.flatten = blocks)
    {deltas : List WalletLogDelta} (hdeltas : List.Forall₂ CoversBlocks deltas parts)
    {merged : WalletLogDelta} (hmerged : CoversBlocks merged blocks) :
    (applyWalletDeltas keys [] deltas).Perm
        (applyWalletDeltaToVecWithOutcome keys [] merged).1 ∧
      ∀ (fromBlock : Nat) (belowParts fromParts : List (List BlockRows))
        (belowDeltas fromDeltas : List WalletLogDelta),
        belowParts.flatten = blocksBelow blocks fromBlock →
        fromParts.flatten = blocksFrom blocks fromBlock →
        List.Forall₂ CoversBlocks belowDeltas belowParts →
        List.Forall₂ CoversBlocks fromDeltas fromParts →
        (rewindWalletUtxos (applyWalletDeltas keys [] deltas) fromBlock).1.Perm
            (applyWalletDeltas keys [] belowDeltas) ∧
          (applyWalletDeltas keys
            (rewindWalletUtxos (applyWalletDeltas keys [] deltas) fromBlock).1 fromDeltas).Perm
            (applyWalletDeltas keys [] deltas) := by
  subst hparts
  have hscan := scan_eq h hdeltas
  have hmergedParts : [parts.flatten].flatten = parts.flatten := List.flatten_singleton
  have hscanMerged := scan_eq (hmergedParts ▸ h) (.cons hmerged .nil)
  rw [hmergedParts] at hscanMerged
  refine ⟨hscan.trans hscanMerged.symm, ?_⟩
  intro fromBlock belowParts fromParts belowDeltas fromDeltas hbelow hfrom hbelowDeltas hfromDeltas
  have hcut := h.below_append_from fromBlock
  have hrewound := rewindWalletUtxos_scanned h fromBlock hscan
  have hchain : ChainOrder keys (blocksBelow parts.flatten fromBlock ++ fromParts.flatten) := by
    rw [hfrom, hcut]
    exact h
  constructor
  · have hscanBelow := scan_eq (hbelow ▸ hchain.left) hbelowDeltas
    rw [hbelow] at hscanBelow
    exact hrewound.trans hscanBelow.symm
  · have hreplayed := applyWalletDeltas_scanned hfromDeltas hchain hrewound
    rw [hfrom, hcut] at hreplayed
    exact hreplayed.trans hscan.symm

/-- Keys whose nullifiers are the positions. -/
def positionKeys : WalletScanKeys := ⟨1, fun _ position => position, fun _ _ => none⟩

/-- A note created in block 10. -/
def firstNote : ScannedUtxo :=
  { note := ⟨0, 5, 0, 0⟩, tree := 0, position := 0, source := ⟨1, 10, 0⟩, commitment := 7 }

/-- A note created in block 20, by the transaction that spends the first. -/
def secondNote : ScannedUtxo :=
  { note := ⟨0, 4, 0, 0⟩, tree := 0, position := 1, source := ⟨2, 20, 0⟩, commitment := 8 }

/-- A note. -/
def firstBlock : BlockRows := ⟨10, [firstNote], []⟩

/-- A note and the nullifier of the first. -/
def secondBlock : BlockRows := ⟨20, [secondNote], [⟨0, 0, ⟨2, 20, 0⟩⟩]⟩

theorem twoBlocks_chainOrder : ChainOrder positionKeys [firstBlock, secondBlock] where
  increasing := by decide
  created := by decide
  published := by decide
  places_distinct := by decide
  nullifiers_distinct := by decide
  not_before := by decide

theorem covers_singleton (rows : BlockRows) :
    CoversBlocks ⟨rows.utxos, rows.nullifiers, []⟩ [rows] := by
  constructor
  · rw [blockUtxos, List.flatMap_singleton]
  · rw [blockNullifiers, List.flatMap_singleton]

-- The second block is rewound, which makes the first note unspent again, and
-- replayed.
theorem rewind_replay_eq_scan_twoBlocks :
    (rewindWalletUtxos (applyWalletDeltas positionKeys []
        [⟨[firstNote], [], []⟩, ⟨[secondNote], [⟨0, 0, ⟨2, 20, 0⟩⟩], []⟩]) 20).1.Perm
        [⟨firstNote, none⟩] ∧
      (applyWalletDeltas positionKeys [⟨firstNote, none⟩]
        [⟨[secondNote], [⟨0, 0, ⟨2, 20, 0⟩⟩], []⟩]).Perm
        [⟨firstNote, some ⟨2, 20, 0⟩⟩, ⟨secondNote, none⟩] := by
  have hparts : [[firstBlock], [secondBlock]].flatten = [firstBlock, secondBlock] := rfl
  have hmerged : CoversBlocks ⟨[firstNote, secondNote], [⟨0, 0, ⟨2, 20, 0⟩⟩], []⟩
      [firstBlock, secondBlock] := ⟨.refl _, .refl _⟩
  have hfirst : List.Forall₂ CoversBlocks [⟨[firstNote], [], []⟩] [[firstBlock]] :=
    .cons (covers_singleton firstBlock) .nil
  have hsecond : List.Forall₂ CoversBlocks [⟨[secondNote], [⟨0, 0, ⟨2, 20, 0⟩⟩], []⟩]
      [[secondBlock]] :=
    .cons (covers_singleton secondBlock) .nil
  have hboth := rewind_replay_eq_scan twoBlocks_chainOrder hparts
    (.cons (covers_singleton firstBlock) hsecond) hmerged
  exact hboth.2 20 [[firstBlock]] [[secondBlock]] _ _ rfl rfl hfirst hsecond

end Railgun
