import GoXrpl.Engine.NoEffect
import GoXrpl.ApplyState.Lemmas.Metadata
import GoXrpl.Accounting.Total

/-!
This module contains that no transaction creates or loses drops: what the entries of the whole ledger
hold falls by what is added to the counter of destroyed drops.
-/

open State ApplyState ApplyStateTable Program Invariants Accounting Option TrackedEntry Codec

namespace Engine

open Ter

section Contract

variable {Blob σ : Type} [Codec Blob] {e : TrackedEntry Blob}

theorem collectEntry_eq_none (h : collectEntry key e = none) : e.action = .cache := by
  unfold collectEntry at h
  cases haction : e.action <;> simp_all

variable [Records Blob]

def held (data : Blob) : Int :=
  ((decodeType data).bind fun entryType => heldDrops entryType data).getD 0

noncomputable def totalHeld (m : Contents Blob) : Int :=
  total held m

theorem held_of_type {data : Blob} (htype : decodeType data = some entryType)
    {drops : Int} (hdrops : heldDrops entryType data = some drops)
    : held data = drops := by
  unfold held
  rw [htype, bind_some, hdrops]
  rfl

theorem change_of_write {current : Blob} (hafter : ie.after = some current)
    (hdelete : ie.isDelete = false) (htype : ie.entryType = decodeType current)
    (hvalid : checkLedgerEntryTypesMatch.valid ie = true) (hnet : netChange ie = some change)
    : held current = ie.before.elim 0 held + change := by
  unfold checkLedgerEntryTypesMatch.valid at hvalid
  rw [hafter] at hvalid
  cases hcurrent : decodeType current with
  | none => cases hbefore : ie.before <;> simp [hbefore, hcurrent] at hvalid
  | some entryType =>
    obtain ⟨before, after, hbefore, hdrops, hchange⟩ :=
      netChange_of_type entryType (htype.trans hcurrent) hnet
    simp only [hafter, hdelete, Bool.false_and, Bool.false_eq_true, if_false, ite_self] at hdrops
    rw [hchange, held_of_type hcurrent hdrops]
    cases hold : ie.before with
    | none =>
      rw [hold] at hbefore
      cases hbefore
      simp
    | some original =>
      have horiginal : decodeType original = some entryType := by
        cases hother : decodeType original <;> simp_all
      rw [hold] at hbefore
      simp [held_of_type horiginal hbefore]

theorem change_of_current (htracks : e.Tracks stored)
    (haction : e.action = .insert ∧ stored = none ∨ e.action = .modify ∧ e.original.isSome)
    (hcollect : collectEntry key e = some ie)
    (hvalid : checkLedgerEntryTypesMatch.valid ie = true) (hnet : netChange ie = some change)
    : e.live.elim 0 held = stored.elim 0 held + change := by
  have hwritten : e.action = .insert ∨ e.action = .modify := haction.imp And.left And.left
  obtain ⟨current, hcurrent⟩ :=
    isSome_iff_exists.mp (htracks.current (by rcases hwritten with h | h <;> rw [h] <;> decide))
  have hlive : e.live = some current := by
    rcases hwritten with h | h <;> simp [live, h, hcurrent]
  rw [hlive]
  unfold collectEntry at hcollect
  rcases haction with ⟨haction, hstored⟩ | ⟨haction, horiginal⟩
  . simp only [haction, some.injEq] at hcollect
    subst hcollect
    rw [hstored]
    exact change_of_write hcurrent rfl (by simp [collectEntry.mk, hcurrent]) hvalid hnet
  simp only [haction, some.injEq] at hcollect
  subst hcollect
  obtain ⟨original, horiginal⟩ := isSome_iff_exists.mp horiginal
  rw [htracks.original original horiginal, ← horiginal]
  exact change_of_write hcurrent rfl (by simp [collectEntry.mk, hcurrent]) hvalid hnet

def DeletedEmpty (original final : Option Blob) : Prop :=
  original.bind decodeType = some .accountRoot →
    ∀ account, final.bind Records.parseAccountRoot = some account → account.balance = 0

theorem change_of_erase (htracks : e.Tracks stored) (haction : e.action = .erase)
    (horiginal : e.original.isSome) (hfinal : e.current.isSome)
    (hempty : DeletedEmpty e.original e.current)
    (hcollect : collectEntry key e = some ie) (hnet : netChange ie = some change)
    : e.live.elim 0 held = stored.elim 0 held + change := by
  obtain ⟨original, horiginal⟩ := isSome_iff_exists.mp horiginal
  obtain ⟨final, hfinal⟩ := isSome_iff_exists.mp hfinal
  have hstored := htracks.original original horiginal
  unfold collectEntry at hcollect
  simp only [haction, some.injEq] at hcollect
  subst hcollect
  have hlive : e.live = none := by
    unfold live
    rw [haction]
    rfl
  rw [hlive, hstored]
  cases htype : decodeType original with
  | none =>
    rw [netChange_of_type_none (by simp [collectEntry.mk, horiginal, htype]) hnet]
    simp [held, htype]
  | some entryType =>
    obtain ⟨before, after, hbefore, hafter, hchange⟩ :=
      netChange_of_type entryType (by simp [collectEntry.mk, horiginal, htype]) hnet
    simp only [collectEntry.mk, horiginal, hfinal, some_or, isSome_some, Bool.and_self,
      if_true] at hbefore hafter
    -- the final image of an account counts, and holds nothing
    have hafter : after = 0 := by
      split at hafter
      . next haccount =>
        subst haccount
        obtain ⟨account, haccount, hbalance⟩ := map_eq_some_iff.mp hafter
        have hzero := hempty (by rw [horiginal, bind_some, htype]) account
          (by rw [hfinal, bind_some, haccount])
        rw [← hbalance, hzero]
        rfl
      . exact (some.inj hafter).symm
    rw [hchange, hafter]
    simp [held_of_type htype hbefore]

def dropsImage (data : Blob) : Option EntryType × (EntryType → Option Int) :=
  (decodeType data, fun entryType => heldDrops entryType data)

theorem DeletedEmpty.of_dropsImage {original final final' : Option Blob}
    (himage : final'.map dropsImage = final.map dropsImage) (h : DeletedEmpty original final')
    : DeletedEmpty original final := by
  intro htype account haccount
  obtain ⟨data, hdata, hparse⟩ := bind_eq_some_iff.mp haccount
  rw [hdata, map_some] at himage
  obtain ⟨data', hdata', himage⟩ := map_eq_some_iff.mp himage
  have hheld : heldDrops .accountRoot data' = heldDrops .accountRoot data :=
    congrFun (Prod.mk.inj himage).2 .accountRoot
  simp only [heldDrops] at hheld
  rw [hparse, map_some] at hheld
  obtain ⟨account', hparse', hbalance⟩ := map_eq_some_iff.mp hheld
  have hzero := h htype account' (by rw [hdata', bind_some, hparse'])
  rw [hzero] at hbalance
  apply UInt64.toNat_inj.mp
  exact_mod_cast hbalance.symm

variable [Sha512Half] [LedgerView Blob σ] [DecidableEq Blob]
variable {view : MapView Blob σ} {tx : Transaction Blob} {s : Recording σ}
variable {f : Finished Blob σ} {metadata : Metadata Blob}
variable {checked table : ApplyStateTable Blob (Recording σ)}

namespace Commits

variable (hc : Commits view config tx s f metadata checked table)

include hc

variable (hclosed : config.isViewOpen = false)
  (hthreading : IgnoresThreading (dropsImage : Blob → _))

include hclosed hthreading

theorem threaded (hlookup : checked.items.lookup k = some e) (haction : e.action ≠ .cache)
    : ∃ t e', t.buildMetadata = .ok metadata ∧ Committed (Recording.mapView view) t f.view
      ∧ t.Inv (Recording.mapView view)
      ∧ (Recording.mapView view).contents t.base = view.contents s.view
      ∧ t.items.lookup k = some e' ∧ e'.action = e.action ∧ e'.original = e.original
      ∧ e'.current.map dropsImage = e.current.map dropsImage := by
  have hrethreaded : Rethreaded (Recording.mapView view) dropsImage
      (chargedTable config table f.chargedFee) (chargedTable config table f.chargedFee).applyThreading :=
    applyThreading_rethreaded hthreading _
  obtain ⟨hmetadata, hcommitted⟩ := hc.lands.committed hclosed
  have hbase := hrethreaded.base_contents hc.inv_table.base
  rw [base_chargedTable, hc.contents_table] at hbase
  have hseen := hrethreaded.lookup k
  rw [items_chargedTable, hc.lookup_table hlookup haction, map_some] at hseen
  obtain ⟨e', hlookup', hseen⟩ := map_eq_some_iff.mp hseen
  unfold seen at hseen
  simp only [Prod.mk.injEq] at hseen
  exact ⟨_, e', hmetadata, hcommitted, hrethreaded.inv hc.inv_table, hbase, hlookup', hseen.1,
    hseen.2.1, hseen.2.2⟩

theorem change_eq (hempty : ∀ node ∈ metadata, node.nodeType = .deletedNode →
      DeletedEmpty node.original node.current)
    {k : Hash256} (hlookup : checked.items.lookup k = some e)
    (hie : ie ∈ collectEntries checked)
    (hcollect : collectEntry k e = some ie) {change : Int} (hnet : netChange ie = some change)
    : e.live.elim 0 held = (view.contents s.view k).elim 0 held + change := by
  obtain ⟨_, hpasses⟩ := hc.passes
  have htracks := hc.tracks k e hlookup
  have hvalid := hpasses.valid hie
  by_cases hcache : e.action = .cache
  . unfold collectEntry at hcollect
    simp only [hcache] at hcollect
    cases hcollect
  obtain ⟨t, e', hmetadata, hcommitted, hinv, hbase, hlookup', haction', horiginal', hcurrent'⟩ :=
    hc.threaded hclosed hthreading hlookup hcache
  cases haction : e.action with
  | cache => exact absurd haction hcache
  | insert =>
    refine change_of_current htracks (.inl ⟨haction, ?_⟩) hcollect hvalid hnet
    rw [← hbase]
    exact hcommitted.fresh_of_insert hinv hlookup' (haction'.trans haction)
  | modify =>
    have hcurrent : e'.current.isSome :=
      (hinv.tracks k e' hlookup').current (by rw [haction', haction]; decide)
    refine change_of_current htracks (.inr ⟨haction, ?_⟩) hcollect hvalid hnet
    rw [← horiginal']
    exact original_of_modify hmetadata hlookup' (haction'.trans haction) hcurrent
  | erase =>
    obtain ⟨horiginal, hcurrent, node, hnode, hdeleted, hnodeOriginal, hnodeCurrent⟩ :=
      node_of_erase hmetadata hlookup' (haction'.trans haction)
    have hemptyNode := hempty node hnode hdeleted
    rw [hnodeOriginal, hnodeCurrent, horiginal'] at hemptyNode
    have hcurrent : e.current.isSome := by
      have hisSome := congrArg isSome hcurrent'
      rw [isSome_map, isSome_map] at hisSome
      rw [← hisSome]
      exact hcurrent
    exact change_of_erase htracks haction (horiginal' ▸ horiginal) hcurrent
      (hemptyNode.of_dropsImage hcurrent') hcollect hnet

theorem totalHeld_eq (hempty : ∀ node ∈ metadata, node.nodeType = .deletedNode →
      DeletedEmpty node.original node.current)
    : totalHeld (view.contents f.view.view)
        = totalHeld (view.contents s.view) - (f.chargedFee.toNat : Int) := by
  have hfinite : Finite Hash256 := finite_bytes 32
  obtain ⟨_, hpasses⟩ := hc.passes
  obtain ⟨changes, hchanges, hsum⟩ := hpasses.netChanges
  have hcontents := hc.contents_eqUpTo hclosed hthreading
  calc totalHeld (view.contents f.view.view)
      = totalHeld (checked.items.overlay (view.contents s.view)) := by
        apply total_congr
        intro k
        have hk := congrArg (Option.map fun image : Option EntryType × (EntryType → Option Int) =>
          (image.1.bind image.2).getD 0) (hcontents k)
        rw [Option.map_map, Option.map_map] at hk
        exact hk
    _ = totalHeld (view.contents s.view) + (checked.items.entries.map fun item =>
          item.2.live.elim 0 held - (view.contents s.view item.1).elim 0 held).sum := by
        apply total_add_changes checked.items fun k e =>
          e.live.elim 0 held - (view.contents s.view k).elim 0 held
        . intro k e hlookup
          rw [Items.overlay_of_lookup hlookup, add_sub_cancel]
        . exact fun k => Items.overlay_of_lookup_none
    _ = totalHeld (view.contents s.view) + changes.sum := by
        congr 1
        apply sum_of_filterMap hchanges
        . intro item hitem hnone
          have htracks := hc.tracks item.1 item.2 (AList.mem_lookup_iff.mpr hitem)
          rw [htracks.live_of_cache (collectEntry_eq_none hnone), sub_self]
        intro item hitem ie change hcollect hnet
        have hlookup : checked.items.lookup item.1 = some item.2 := AList.mem_lookup_iff.mpr hitem
        have hie : ie ∈ collectEntries checked := List.mem_filterMap.mpr ⟨item, hitem, hcollect⟩
        rw [hc.change_eq hclosed hthreading hempty hlookup hie hcollect hnet, add_sub_cancel_left]
    _ = totalHeld (view.contents s.view) - (f.chargedFee.toNat : Int) := by
        rw [List.sum_eq_foldr, hsum, sub_eq_add_neg]

end Commits

theorem applyWithContext_conserves (deletions : PersistentDeletions Blob) {s : σ}
    (hinv : view.Inv s) (hclosed : config.isViewOpen = false)
    (hthreading : IgnoresThreading (dropsImage : Blob → _))
    (hkeeps : ∀ account, (tx.apply account).All Access.KeepsDrops)
    (hempty : ∀ metadata ∈ (applyWithContext config deletions tx s).committed, ∀ node ∈ metadata,
      node.nodeType = .deletedNode → DeletedEmpty node.original node.current)
    : ∃ destroyed : UInt64, destroyed.toNat < 2 ^ 63
      ∧ totalHeld (view.contents (applyWithContext config deletions tx s).view.view)
          = totalHeld (view.contents s) - (destroyed.toNat : Int)
      ∧ view.dropsDestroyed (applyWithContext config deletions tx s).view.view
          = view.dropsDestroyed s + destroyed.toInt64 := by
  have hsettles : Settles view config tx ⟨s, none⟩ (applyWithContext config deletions tx s) :=
    applyWithContext_settles deletions hinv
  rcases hsettles.cases with ⟨hsame, _⟩ | ⟨hdryRun, f, metadata, checked, table, hmetadata, hc, ha⟩
  . have hcontents : view.contents (applyWithContext config deletions tx s).view.view
        = view.contents s := hsame.contents
    have hdrops : view.dropsDestroyed (applyWithContext config deletions tx s).view.view
        = view.dropsDestroyed s := hsame.drops
    refine ⟨0, by decide, ?_, ?_⟩
    . rw [hcontents]
      simp
    rw [hdrops]
    exact (Int64.add_zero _).symm
  rw [ha] at hempty ⊢
  have hcommitted : (conclude config f).committed = some metadata := by
    unfold conclude
    simp [hdryRun, hmetadata]
  obtain ⟨_, hpasses⟩ := hc.passes
  refine ⟨f.chargedFee, Nat.lt_trans hpasses.fee_lt (by decide), ?_, ?_⟩
  . exact hc.totalHeld_eq hclosed hthreading (hempty metadata hcommitted)
  . exact hc.dropsDestroyed_eq hclosed (hc.drops hkeeps)

end Contract

namespace Sample

attribute [local instance] sha512Half

theorem ignoresThreading_dropsImage : IgnoresThreading (dropsImage : Entry → _) := by
  intro typ data txHash seq data' h
  cases h
  unfold dropsImage
  congr 1
  funext entryType
  cases entryType <;> rfl

theorem totalHeld_contents (l : Ledger Entry)
    : totalHeld (view.contents l) = (l.stateMap.entries.map fun e => held e.2).sum :=
  finsum_lookup l.stateMap fun _ => held

def destroy (account : AccountRoot) : TableProg Entry Empty (Result × AccountRoot) :=
  .call (.write (.adjustDropsDestroyed 5)) fun _ => pure (tesSUCCESS, account)

def destroyed : Applied Entry (Ledger Entry) :=
  applyWithContext (config false false false) deletions (tx destroy) ledger

theorem destroyed_not_conserved
    : (config false false false).isViewOpen = false
      ∧ destroyed.committed.map (fun metadata => metadata.map (·.nodeType)) = some [.modifiedNode]
      ∧ totalHeld (view.contents ledger) = 1000
      ∧ totalHeld (view.contents destroyed.view.view) = 990
      ∧ view.dropsDestroyed ledger = 0
      ∧ view.dropsDestroyed destroyed.view.view = 15 := by
  rw [totalHeld_contents, totalHeld_contents]
  decide +kernel

theorem minted_committed
    : (minted false false).committed.map (fun metadata => metadata.map (·.nodeType))
        = some [.modifiedNode] := by
  decide +kernel

-- `mint` violates an invariant, and the fee-only table is committed.
theorem minted_conserves
    : (config false false false).isViewOpen = false
      ∧ ∃ destroyed : UInt64, destroyed.toNat < 2 ^ 63
        ∧ totalHeld (view.contents (minted false false).view.view)
            = totalHeld (view.contents ledger) - (destroyed.toNat : Int)
        ∧ view.dropsDestroyed (minted false false).view.view
            = view.dropsDestroyed ledger + destroyed.toInt64 := by
  refine ⟨rfl, ?_⟩
  apply applyWithContext_conserves deletions rfl rfl ignoresThreading_dropsImage
  . exact fun _ => trivial
  intro metadata hmetadata node hnode hdeleted
  have hcommitted := minted_committed
  unfold minted at hcommitted
  rw [Option.mem_def.mp hmetadata, Option.map_some, Option.some.injEq] at hcommitted
  have htype := List.mem_map_of_mem (f := (·.nodeType)) hnode
  rw [hcommitted, hdeleted] at htype
  exact absurd htype (by decide)

end Sample

end Engine
