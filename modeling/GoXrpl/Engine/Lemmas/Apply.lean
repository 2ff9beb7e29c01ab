import GoXrpl.Engine.Lemmas.Paths

open State ApplyState ApplyStateTable Program Invariants

namespace Engine

open Ter

theorem toInt_toInt64 {n : UInt64} (h : n.toNat < 2 ^ 63) : n.toInt64.toInt = n.toNat := by
  rw [← UInt64.ofNat_toNat (x := n), UInt64.toInt64_ofNat', Int64.toInt_ofNat_of_lt h, UInt64.ofNat_toNat]

theorem committed_eq_none {config : Config} {f : Finished Blob σ}
    (h : f.metadata = none ∨ config.applyFlags.dryRun = true)
    : (if config.applyFlags.dryRun then none else f.metadata) = none := by
  rcases h with hnone | hdry
  . rw [hnone, ite_self]
  . rw [if_pos hdry]

variable {Blob σ : Type} [Codec Blob] [Records Blob] [LedgerView Blob σ]
variable [DecidableEq Blob] [Sha512Half]

structure Settles (view : MapView Blob σ) (config : Config) (tx : Transaction Blob)
    (s : Recording σ) (a : Applied Blob σ)
    : Prop where
  inv : view.Inv a.view.view
  cases : SameView view s a.view ∧ a.committed = none
    ∨ config.applyFlags.dryRun = false ∧ ∃ f metadata checked table,
        f.metadata = some metadata ∧ Commits view config tx s f metadata checked table
        ∧ a = conclude config f
  reported : tx.PaysOwnFee → ∀ r, a.result = some r → r.applied = true → a.committed.isSome

variable {view : MapView Blob σ} {config : Config} {s : Recording σ}
variable {s' : Recording σ}

theorem Settles.of_escaped (h : Reads view s s')
    : Settles view config tx s { result := none, committed := none, view := s' } :=
  ⟨h.inv, .inl ⟨h.same, rfl⟩, fun _ _ hr => by cases hr⟩

theorem Settles.of_rejected (h : Reads view s s') (hcommitted : committed = none)
    : Settles view config tx s
        { (Applied.rejected result s' cause : Applied Blob σ) with committed } := by
  refine ⟨h.inv, .inl ⟨h.same, hcommitted⟩, ?_⟩
  rintro _ _ ⟨⟩ happlied
  cases happlied

theorem Settles.rejected (h : Reads view s s')
    : Settles view config tx s (Applied.rejected result s' cause : Applied Blob σ) :=
  .of_rejected h rfl

theorem Settles.after_same (hsame : SameView view s s₁) (h : Settles view config tx s₁ a)
    : Settles view config tx s a := by
  refine ⟨h.inv, ?_, h.reported⟩
  rcases h.cases with ⟨hsame', hcommitted⟩ | ⟨hdry, f, metadata, checked, table, hmetadata, hc, ha⟩
  . exact .inl ⟨hsame.trans hsame', hcommitted⟩
  refine .inr ⟨hdry, f, metadata, checked, table, hmetadata, ?_, ha⟩
  exact { hc with
    base_same := hsame.trans hc.base_same
    fromReset := fun htec hreapply => (hc.fromReset htec hreapply).of_same hsame }

variable {f : Finished Blob σ} {txHash : Hash256}

theorem Ends.conclude (h : Ends view config tx s f)
    : Settles view config tx s (conclude config f) := by
  refine ⟨h.inv, ?_, ?_⟩
  . rcases h.cases with ⟨hsame, hnothing⟩ | ⟨hdry, metadata, checked, table, hmetadata, hcommits⟩
    . exact .inl ⟨hsame, committed_eq_none hnothing⟩
    . exact .inr ⟨hdry, f, metadata, checked, table, hmetadata, hcommits, rfl⟩
  rintro hown _ ⟨⟩ happlied
  simp only [Bool.and_eq_true, Bool.not_eq_eq_eq_not, Bool.not_true] at happlied
  obtain ⟨⟨⟨hresult, hfailHard⟩, hretry⟩, hdryRun⟩ := happlied
  unfold Engine.conclude
  simp only [hdryRun, Bool.false_eq_true, if_false]
  rw [Option.isSome_iff_ne_none]
  intro hnone
  rcases h.reported hown hnone with hnot | ⟨htec, hset⟩ | ⟨htec, hset, hother⟩
  . rw [hresult] at hnot
    cases hnot
  . simp [htec, hset] at hfailHard
  . simp [htec, hset, hother] at hretry

theorem commitPreclaimTec_isTec (htec : isTec result = true)
    : (commitPreclaimTec config tx txHash result s).metadata.isSome →
      (commitPreclaimTec config tx txHash result s).view.cause = none →
      isTec (commitPreclaimTec config tx txHash result s).result = true := by
  unfold commitPreclaimTec
  dsimp only
  split
  . intro hsome
    cases hsome
  split
  . intro hsome
    cases hsome
  . intro hsome
    cases hsome
  intro hsome hcause
  rcases checkAndCommit_result hsome with hresult | hresult | hresult
  . rw [hresult]
    exact htec
  . rw [hresult]
    rfl
  rw [hcause] at hresult
  cases hresult

theorem doApply_settles (hinv : view.Inv s.view)
    : Settles view config tx s ((doApply config deletions tx txHash s).report config) := by
  have hleaves := doApply_leaves config deletions tx txHash hinv
  cases hexit : doApply config deletions tx txHash s with
  | escaped s' =>
    rw [hexit] at hleaves
    exact .of_escaped hleaves
  | finished f =>
    have hends : Ends view config tx s f := by
      rw [hexit] at hleaves
      exact hleaves
    unfold Exit.report
    dsimp only
    split
    . next hcause =>
      obtain ⟨hsame, hnothing⟩ := hends.same_of_cause hcause
      exact .of_rejected ⟨hends.inv, hsame⟩ (committed_eq_none hnothing)
    . exact hends.conclude

theorem commitPreclaimTec_settles (htec : isTec result = true) (hinv : view.Inv s.view)
    (hf : commitPreclaimTec config tx txHash result s = f)
    : Settles view config tx s
        (if f.view.cause.isSome then
          { (Applied.rejected tefEXCEPTION f.view f.view.cause : Applied Blob σ) with
            committed := if config.applyFlags.dryRun then none else f.metadata }
        else if !isTec f.result then
          { (Applied.rejected f.result f.view cause : Applied Blob σ) with
            committed := if config.applyFlags.dryRun then none else f.metadata }
        else conclude config f) := by
  have hends : Ends view config tx s f := by
    rw [← hf]
    exact commitPreclaimTec_ends txHash htec hinv
  split
  . next hcause =>
    obtain ⟨hsame, hnothing⟩ := hends.same_of_cause hcause
    exact .of_rejected ⟨hends.inv, hsame⟩ (committed_eq_none hnothing)
  . next hcause =>
    split
    . next hnotTec =>
      -- a commit would carry a code that claims
      rcases hends.cases with ⟨hsame, hnothing⟩ | ⟨_, metadata, _, _, hmetadata, hcommits⟩
      . exact .of_rejected ⟨hends.inv, hsame⟩ (committed_eq_none hnothing)
      have hresult := commitPreclaimTec_isTec htec (by rw [hf, hmetadata]; rfl)
        (by rw [hf]; exact hcommits.lands.cause)
      rw [hf] at hresult
      rw [hresult] at hnotTec
      cases hnotTec
    . exact hends.conclude

structure Claimed.Kept (view : MapView Blob σ) (config : Config) (s : Recording σ) (c : Claimed σ)
    : Prop extends Reads view s c.view where
  claims : isSuccess c.result = true ∨ isTec c.result = true ∧ config.applyFlags.retry = false

def ClaimsOrSettles (view : MapView Blob σ) (config : Config) (tx : Transaction Blob) (s : Recording σ)
    : Except (Applied Blob σ) (Claimed σ) → Prop
  | .error a => Settles view config tx s a ∧ a.committed = none
  | .ok c => c.Kept view config s

theorem beforeApply_spec (config : Config) (tx : Transaction Blob) {s : σ} (hinv : view.Inv s)
    : ClaimsOrSettles view config tx ⟨s, none⟩ (beforeApply config tx s) := by
  have hstart : Reads view ⟨s, none⟩ ⟨s, none⟩ := ⟨hinv, .refl _ _⟩
  have hclaimed := hstart.run tx.preclaim
  unfold beforeApply
  dsimp only
  split
  . exact ⟨.rejected hstart, rfl⟩
  split
  . exact ⟨.rejected hstart, rfl⟩
  split
  . exact ⟨.rejected hstart, rfl⟩
  split
  . exact ⟨.rejected hstart, rfl⟩
  split
  . exact ⟨.of_escaped hclaimed, rfl⟩
  next result _ _ =>
  generalize (tx.preclaim.run LedgerView.query (⟨s, none⟩ : Recording σ)).2 = s₁ at *
  have hreset : Reads view ⟨s, none⟩ s₁.resetStateErrors :=
    ⟨hclaimed.inv, hclaimed.same.contents, hclaimed.same.drops⟩
  have hfee := hreset.run tx.calculateBaseFee
  split
  . exact ⟨.rejected hreset, rfl⟩
  next hresult =>
  split
  . exact ⟨.rejected hreset, rfl⟩
  next hretry =>
  split
  . refine ⟨hfee, ?_⟩
    by_cases hsuccess : isSuccess result = true
    . exact .inl hsuccess
    have htec : isTec result = true := by simpa [hsuccess] using hresult
    exact .inr ⟨htec, by simpa [htec] using hretry⟩
  . exact ⟨.rejected hfee, rfl⟩

theorem applyWithContext_settles (deletions : PersistentDeletions Blob) {s : σ} (hinv : view.Inv s)
    : Settles view config tx { view := s, cause := none } (applyWithContext config deletions tx s) := by
  have hspec := beforeApply_spec config tx hinv
  unfold applyWithContext
  cases hbefore : (beforeApply config tx s : Except (Applied Blob σ) (Claimed σ)) with
  | error a =>
    rw [hbefore] at hspec
    exact hspec.1
  | ok c =>
    rw [hbefore] at hspec
    apply Settles.after_same hspec.same
    dsimp only
    split
    . exact doApply_settles hspec.inv
    next hnotSuccess =>
    split
    . exact .rejected ⟨hspec.inv, .refl _ _⟩
    . exact commitPreclaimTec_settles (hspec.claims.resolve_left hnotSuccess).1 hspec.inv rfl

variable {tx : Transaction Blob} {metadata : Metadata Blob}
variable {checked table : ApplyStateTable Blob (Recording σ)}

namespace Commits

variable (hc : Commits view config tx s f metadata checked table)

include hc

theorem contents_checked : (Recording.mapView view).contents checked.base = view.contents s.view :=
  hc.base_same.contents

theorem tracks : checked.items.Tracks (view.contents s.view) := by
  have htracks := hc.inv.tracks
  rwa [hc.contents_checked] at htracks

theorem contents_table : (Recording.mapView view).contents table.base = view.contents s.view :=
  hc.queried.moved.base_same.contents.trans hc.contents_checked

theorem overlay_table
    : table.items.overlay (view.contents s.view) = checked.items.overlay (view.contents s.view) := by
  have htracks := hc.queried.moved.inv.tracks
  rw [hc.contents_table] at htracks
  funext k
  rw [Items.overlay_eq_of_filter htracks, Items.overlay_eq_of_filter hc.tracks, hc.queried.tracked]

theorem inv_table : (chargedTable config table f.chargedFee).Inv (Recording.mapView view) :=
  inv_chargedTable config f.chargedFee hc.queried.moved.inv

theorem lookup_table (hlookup : checked.items.lookup k = some e) (haction : e.action ≠ .cache)
    : table.items.lookup k = some e := by
  have htracked := hc.queried.tracked k
  rw [hlookup, Option.filter_some, if_pos (decide_eq_true haction)] at htracked
  exact (Option.filter_eq_some_iff.mp htracked).1

theorem contents_eqUpTo (hclosed : config.isViewOpen = false) (himage : IgnoresThreading image)
    : Contents.EqUpTo image (view.contents f.view.view)
        (checked.items.overlay (view.contents s.view)) := by
  obtain ⟨_, hcommitted⟩ := hc.lands.committed hclosed
  have howners : (chargedTable config table f.chargedFee).threadOnlyOwners = ∅ := by
    rw [owners_chargedTable, hc.queried.moved.owners, hc.owners]
  have hcontents := hcommitted.eqUpTo (applyThreading_rethreaded himage _) hc.inv_table howners
  have hoverlay : (chargedTable config table f.chargedFee).contents (Recording.mapView view)
      = checked.items.overlay (view.contents s.view) := by
    unfold ApplyStateTable.contents
    rw [items_chargedTable, base_chargedTable, hc.contents_table, hc.overlay_table]
  rwa [hoverlay] at hcontents

theorem dropsDestroyed_eq (hclosed : config.isViewOpen = false) (hunused : checked.drops = 0)
    : view.dropsDestroyed f.view.view = view.dropsDestroyed s.view + f.chargedFee.toInt64 := by
  obtain ⟨_, hpasses⟩ := hc.passes
  obtain ⟨_, hcommitted⟩ := hc.lands.committed hclosed
  have hrethreaded : Rethreaded (Recording.mapView view) (fun _ => ())
      (chargedTable config table f.chargedFee) (chargedTable config table f.chargedFee).applyThreading :=
    applyThreading_rethreaded ignoresThreading_trivial _
  have hdrops : (chargedTable config table f.chargedFee).applyThreading.drops = f.chargedFee.toInt64 := by
    rw [hrethreaded.drops]
    unfold chargedTable
    rw [hclosed]
    change table.drops + _ = _
    rw [hc.queried.drops, hunused, Int64.zero_add]
  have hbase : (Recording.mapView view).dropsDestroyed
      (chargedTable config table f.chargedFee).applyThreading.base = view.dropsDestroyed s.view := by
    rw [(hrethreaded.base_same hc.inv_table.base).drops, base_chargedTable]
    exact hc.queried.moved.base_same.drops.trans hc.base_same.drops
  have hafter := hcommitted.dropsDestroyed
  rw [hdrops, hbase] at hafter
  have hview : view.dropsDestroyed f.view.view = (Recording.mapView view).dropsDestroyed f.view := rfl
  rw [hview, hafter]
  split
  . rfl
  . next hpos =>
    have hlt : f.chargedFee.toNat < 2 ^ 63 := Nat.lt_trans hpasses.fee_lt (by decide)
    have hzero : f.chargedFee = 0 := by
      have hle := fun h => hpos (Int64.lt_iff_toInt_lt.mpr h)
      rw [toInt_toInt64 hlt] at hle
      apply UInt64.toNat_inj.mp
      simp at hle
      simp [hle]
    rw [hzero]
    exact (Int64.add_zero _).symm

end Commits

end Engine
