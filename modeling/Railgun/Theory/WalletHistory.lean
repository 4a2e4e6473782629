import Railgun.Theory.WalletDelta
import Railgun.Theory.WalletFailures

/-!
# A Wallet over Its Whole History

Pages of blocks are applied, delivered again after a failure, and taken back when
the chain is reorganized, any number of times. The wallet is always that of a scan
of the blocks that are left, so the pages and forks on the way do not show.

The actor of a wallet counts its resets. What jobs from before a reset still send
to it arrives at any later time and in any order, and does not show either.

## Main definitions

* `WalletHistory`: The wallets that can come about, with the blocks they hold.

## Theorems

* `applyWalletDelta_again`: A page that has been applied changes nothing.
* `walletHistory_eq_scan`: Every history ends with the wallet of a scan.
* `applyMutation_generation_le`: Generations do not come back.
* `ended_generations_ignored`: Changes of ended generations can be left out.
-/

namespace Railgun

open WalletActorState (applyMutation)

/-- A wallet and the blocks it has: pages are added or applied again, and blocks are
    rewound. -/
inductive WalletHistory (keys : WalletScanKeys) : List BlockRows → List WalletUtxo → Prop
  | start : WalletHistory keys [] []
  | page {blocks more : List BlockRows} {walletUtxos : List WalletUtxo} {delta : WalletLogDelta} :
      WalletHistory keys blocks walletUtxos → CoversBlocks delta more →
      ChainOrder keys (blocks ++ more) →
      WalletHistory keys (blocks ++ more)
        (applyWalletDeltaToVecWithOutcome keys walletUtxos delta).1
  | again {blocks seen : List BlockRows} {walletUtxos : List WalletUtxo} {delta : WalletLogDelta} :
      WalletHistory keys blocks walletUtxos → CoversBlocks delta seen → seen ⊆ blocks →
      WalletHistory keys blocks (applyWalletDeltaToVecWithOutcome keys walletUtxos delta).1
  | rewind {blocks : List BlockRows} {walletUtxos : List WalletUtxo} (fromBlock : Nat) :
      WalletHistory keys blocks walletUtxos →
      WalletHistory keys (blocksBelow blocks fromBlock) (rewindWalletUtxos walletUtxos fromBlock).1

section Histories

variable {keys : WalletScanKeys} {blocks : List BlockRows} {walletUtxos : List WalletUtxo}

theorem markSpent_again {nullifiers seen : List SpentNullifier} {utxos : List ScannedUtxo}
    (h : (nullifiers.map SpentNullifier.key).Nodup) (hseen : seen ⊆ nullifiers)
    (hwallet : walletUtxos.Perm (scannedWallet keys utxos nullifiers)) :
    markSpent keys (nullifierSources seen) walletUtxos = walletUtxos := by
  refine (List.map_congr_left fun entry hentry => ?_).trans (List.map_id _)
  obtain ⟨utxo, -, rfl⟩ := List.mem_map.mp (hwallet.mem_iff.mp hentry)
  cases hspent : spentSource keys nullifiers utxo with
  | some source => rfl
  | none =>
    -- What is seen again is a nullifier of the chain, and none of those spends the note.
    cases hfound : spentSourceForUtxo keys utxo (nullifierSources seen) with
    | none => rfl
    | some source =>
      obtain ⟨before, after, hsources, -⟩ := List.lookup_eq_some_iff.mp hfound
      have hmem : ((utxo.tree, utxo.nullifier keys), source) ∈ nullifierSources seen := by
        rw [hsources]
        exact List.mem_append_right _ List.mem_cons_self
      obtain ⟨spent, hspentMem, heq⟩ := List.mem_map.mp (List.mem_reverse.mp hmem)
      have hsome := (spentSource_eq_some h).mpr
        ⟨spent, hseen hspentMem, congrArg Prod.fst heq, congrArg Prod.snd heq⟩
      rw [hspent] at hsome
      cases hsome

theorem applyWalletDelta_again (h : ChainOrder keys blocks)
    (hwallet : walletUtxos.Perm (scannedWallet keys (blockUtxos blocks) (blockNullifiers blocks)))
    {delta : WalletLogDelta} {seen : List BlockRows} (hdelta : CoversBlocks delta seen)
    (hseen : seen ⊆ blocks) :
    (applyWalletDeltaToVecWithOutcome keys walletUtxos delta).1 = walletUtxos := by
  have hplaces : (walletUtxos.map fun entry => entry.utxo.place).Perm
      ((blockUtxos blocks).map ScannedUtxo.place) := by
    rw [← scannedWallet_places keys _ (blockNullifiers blocks)]
    exact hwallet.map _
  have hmarked : markSpent keys (nullifierSources delta.nullifiers) walletUtxos = walletUtxos := by
    refine markSpent_again h.nullifiers_distinct (fun spent hspent => ?_) hwallet
    obtain ⟨rows, hrows, hmem⟩ := List.mem_flatMap.mp (hdelta.nullifiers.mem_iff.mp hspent)
    exact List.mem_flatMap_of_mem (hseen hrows) hmem
  have hnew : newWalletUtxos keys (nullifierSources delta.nullifiers)
      (walletUtxos.map fun entry => entry.utxo.place) delta.utxos = [] := by
    refine keepFirst_eq_nil _ fun utxo hutxo => hplaces.mem_iff.mpr (List.mem_map_of_mem ?_)
    obtain ⟨rows, hrows, hmem⟩ := List.mem_flatMap.mp (hdelta.utxos.mem_iff.mp hutxo)
    exact List.mem_flatMap_of_mem (hseen hrows) hmem
  rw [applyWalletDeltaToVecWithOutcome]
  rw [hmarked, hnew, List.append_nil]
  exact dedupeWalletUtxos_eq (hplaces.nodup_iff.mpr h.places_distinct)

theorem WalletHistory.scanned (h : WalletHistory keys blocks walletUtxos) :
    ChainOrder keys blocks ∧
      walletUtxos.Perm (scannedWallet keys (blockUtxos blocks) (blockNullifiers blocks)) := by
  induction h with
  | start => exact ⟨⟨.nil, nofun, nofun, .nil, .nil, nofun⟩, .refl _⟩
  | page _ hdelta hchain ih => exact ⟨hchain, applyWalletDelta_scanned hchain ih.2 hdelta⟩
  | again _ hdelta hseen ih =>
    rw [applyWalletDelta_again ih.1 ih.2 hdelta hseen]
    exact ih
  | rewind fromBlock _ ih =>
    have hcut := ih.1
    rw [← ih.1.below_append_from fromBlock] at hcut
    exact ⟨hcut.left, rewindWalletUtxos_scanned ih.1 fromBlock ih.2⟩

end Histories

/-- However pages were cut, repeated and taken back, the wallet is the one that a scan of
    the blocks of the chain ends with. -/
theorem walletHistory_eq_scan {keys : WalletScanKeys} {blocks : List BlockRows}
    {walletUtxos : List WalletUtxo} (h : WalletHistory keys blocks walletUtxos)
    {parts : List (List BlockRows)} (hparts : parts.flatten = blocks) {deltas : List WalletLogDelta}
    (hdeltas : List.Forall₂ CoversBlocks deltas parts) :
    walletUtxos.Perm (applyWalletDeltas keys [] deltas) := by
  obtain ⟨hchain, hwallet⟩ := h.scanned
  subst hparts
  exact hwallet.trans (scan_eq hchain hdeltas).symm

/-- A block that replaces the second one, without the transaction that spends the first note. -/
def otherBlock : BlockRows := ⟨21, [{ secondNote with source := ⟨3, 21, 0⟩ }], []⟩

-- The second block is applied twice, and then the chain goes on with another one.
theorem walletHistory_eq_scan_fork : ∃ walletUtxos,
    WalletHistory positionKeys [firstBlock, otherBlock] walletUtxos ∧
      walletUtxos.Perm (applyWalletDeltas positionKeys []
        [⟨firstBlock.utxos ++ otherBlock.utxos, [], []⟩]) := by
  have hfork : ChainOrder positionKeys [firstBlock, otherBlock] :=
    ⟨by decide, by decide, by decide, by decide, by decide, by decide⟩
  have hfirst := WalletHistory.start.page (covers_singleton firstBlock) twoBlocks_chainOrder.left
  have hsecond := hfirst.page (covers_singleton secondBlock) twoBlocks_chainOrder
  have hhistory := ((hsecond.again (covers_singleton secondBlock) (by simp)).rewind 20).page
    (covers_singleton otherBlock) hfork
  exact ⟨_, hhistory, walletHistory_eq_scan hhistory List.flatten_singleton
    (.cons ⟨.refl _, .refl _⟩ .nil)⟩

/-- The worker numbers a reset with the generation after the current one. -/
def WalletActorMutation.InTurn (state : WalletActorState) (mutation : WalletActorMutation) : Prop :=
  mutation.Issued state ∧
    ∀ pending, mutation = .acceptReset pending →
      pending.resetGeneration = state.resetGeneration + 1

theorem applyMutation_generation_le {state : WalletActorState} {mutation : WalletActorMutation}
    (h : mutation.InTurn state) :
    state.resetGeneration ≤ (state.applyMutation mutation).resetGeneration := by
  have hstep := applyMutation_ledgerStep state mutation
  have hledger : (state.applyMutation mutation).resetGeneration =
      (state.applyMutation mutation).ledger.resetGeneration := rfl
  rw [hledger]
  generalize (state.applyMutation mutation).ledger = ledger at hstep
  cases hstep with
  | reset pending => exact (Nat.le_succ _).trans (h.2 pending rfl).ge
  | _ => exact le_refl _

/-- Leaving out everything that comes from generations that have ended, wherever it
    arrives in a run, leads to the same state. -/
theorem ended_generations_ignored {state : WalletActorState}
    (hreachable : WalletActorReachable state)
    {mutations : List WalletActorMutation} (hturn : AllAllowed applyMutation
      (fun state mutation => mutation.InTurn state) state mutations) :
    runAll applyMutation state (mutations.filter fun mutation =>
        mutation.generation.all fun generation => state.resetGeneration ≤ generation) =
      runAll applyMutation state mutations := by
  refine runAll_filter (I := fun later => later.ledger.Sound ∧
    state.resetGeneration ≤ later.resetGeneration) ?_ ?_ hturn
    ⟨reachable_sound hreachable, le_refl _⟩
  · rintro later mutation hmutation ⟨hsound, hle⟩
    exact ⟨applyMutation_sound mutation hmutation.1 hsound,
      hle.trans (applyMutation_generation_le hmutation)⟩
  · rintro later mutation hmutation ⟨hsound, hle⟩ hended
    cases hgeneration : mutation.generation with
    | none =>
      rw [hgeneration] at hended
      cases hended
    | some generation =>
      rw [hgeneration, Option.all_some, decide_eq_false_iff_not] at hended
      exact applyMutation_stale hsound.tagged hmutation.1 hgeneration (by omega)

/-- An actor that has just been reset, from generation 5 to 6. -/
def resetActor : WalletActorState :=
  (WalletActorState.new 1 1 5 100 0 none false).applyMutation
    (.acceptReset ⟨1, 50, 6, ⟨50, 90, false⟩⟩)

-- A job of the generation before reports its progress after the reset.
theorem ended_generations_ignored_resetActor :
    runAll applyMutation resetActor
      [.durableSyncProgressCommitOk ⟨1, 1, 5, 3⟩ 101 120] = resetActor := by
  have hreachable : WalletActorReachable resetActor :=
    .next _ (.new 1 1 5 0 (by decide) none false) trivial
  have hturn : AllAllowed applyMutation
      (fun state mutation => mutation.InTurn state) resetActor
      [.durableSyncProgressCommitOk ⟨1, 1, 5, 3⟩ 101 120] :=
    ⟨⟨show 120 < 2 ^ 64 by decide, nofun⟩, trivial⟩
  exact (ended_generations_ignored hreachable hturn).symm

end Railgun
