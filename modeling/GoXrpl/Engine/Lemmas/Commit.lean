import GoXrpl.Engine.Impl.Recovery
import GoXrpl.ApplyState.Lemmas.Threading

open State ApplyState ApplyStateTable LedgerView Writer

namespace State.Writer

variable {Blob : Type}

theorem all_recording {P : Write Blob → Prop} {body : Writer Blob} (h : body.All P)
    (cause : Option Error)
    : (body.recording cause).All P := by
  induction body generalizing cause with
  | done err => cases err <;> trivial
  | write w next ih => exact ⟨h.1, fun err => ih err (h.2 err) _⟩

theorem fails_recording (body : Writer Blob) (cause : Error)
    : (body.recording (some cause)).Fails := by
  induction body with
  | done err => cases err <;> simp [recording, Fails]
  | write w next ih => exact fun err => ih err

theorem recording_ofList (ws : List (Write Blob)) : (ofList ws).recording none = ofList ws := by
  induction ws with
  | nil => rfl
  | cons w ws ih =>
    unfold ofList recording
    congr 1
    funext err
    cases err with
    | none => exact ih
    | some err => rfl

end State.Writer

namespace Engine

variable {Blob σ : Type}

theorem base_chargedTable : (chargedTable config table fee).base = table.base := by
  unfold chargedTable
  split <;> rfl

theorem items_chargedTable : (chargedTable config table fee).items = table.items := by
  unfold chargedTable
  split <;> rfl

theorem owners_chargedTable
    : (chargedTable config table fee).threadOnlyOwners = table.threadOnlyOwners := by
  unfold chargedTable
  split <;> rfl

variable [Codec Blob] [LedgerView Blob σ]

namespace Recording

omit [Codec Blob] in
theorem applyAtomically_ofList {s : Recording σ} (h : s.cause = none) (ws : List (Write Blob))
    : applyAtomically (ofList ws) s
        = ((applyAtomically (ofList ws) s.view).1,
            { view := (applyAtomically (ofList ws) s.view).2
              cause := (applyAtomically (ofList ws) s.view).1 }) := by
  obtain ⟨view, cause⟩ := s
  cases h
  change (_, _) = (_, _)
  rw [recording_ofList]
  rfl

theorem cause_eq_none_of_applyAtomically {view : MapView Blob σ} {s : Recording σ}
    (hinv : view.Inv s.view) (hok : (applyAtomically body s).1 = none)
    : s.cause = none := by
  cases hcause : s.cause with
  | none => rfl
  | some cause =>
    have hok' : (applyAtomically (body.recording s.cause) s.view).1 = none := hok
    rw [hcause] at hok'
    exact absurd hok' (view.atomically_fails hinv (fails_recording body cause))

def mapView (view : MapView Blob σ) : MapView Blob (Recording σ) where
  contents s := view.contents s.view
  dropsDestroyed s := view.dropsDestroyed s.view
  Inv s := view.Inv s.view
  query_inv q h := view.query_inv q h
  query_contents q h := view.query_contents q h
  query_drops q h := view.query_drops q h
  read_ok h hread := view.read_ok h hread
  has_ok h hfits hhas := view.has_ok h hfits hhas
  succ_ok h hsucc := view.succ_ok h hsucc
  forEach_ok h hforEach := view.forEach_ok h hforEach
  atomically_inv h hbody := view.atomically_inv h (all_recording hbody _)
  atomically_ok := by
    intro s ws h huntyped hok
    have hcause := cause_eq_none_of_applyAtomically h hok
    rw [applyAtomically_ofList hcause] at hok ⊢
    exact view.atomically_ok h huntyped hok
  atomically_drops := by
    intro s ws h huntyped hok
    have hcause := cause_eq_none_of_applyAtomically h hok
    rw [applyAtomically_ofList hcause] at hok ⊢
    exact view.atomically_drops h huntyped hok
  atomically_fresh := by
    intro s ws h huntyped hok
    have hcause := cause_eq_none_of_applyAtomically h hok
    rw [applyAtomically_ofList hcause] at hok
    exact view.atomically_fresh h huntyped hok
  atomically_error h hbody herr := view.atomically_error h (all_recording hbody _) herr
  atomically_fails := by
    intro s body h hfails
    apply view.atomically_fails h
    exact fails_of_fails hfails s.cause
where
  fails_of_fails {body : Writer Blob} (h : body.Fails) (cause : Option Error)
      : (body.recording cause).Fails := by
    induction body generalizing cause with
    | done err =>
      cases err with
      | none => exact absurd rfl h
      | some err => exact h
    | write w next ih => exact fun err => ih err (h err) _

end Recording

abbrev SameView (view : MapView Blob σ) (s s' : Recording σ) : Prop :=
  (Recording.mapView view).Same s s'

-- Nothing is written between the two.
structure Reads (view : MapView Blob σ) (s s' : Recording σ) : Prop where
  inv : view.Inv s'.view
  same : SameView view s s'

theorem Reads.trans {view : MapView Blob σ} (h : Reads view s s₁) (h' : Reads view s₁ s₂)
    : Reads view s s₂ :=
  ⟨h'.inv, h.same.trans h'.same⟩

variable {view : MapView Blob σ}

theorem inv_chargedTable (config : Config) (fee : UInt64) (h : table.Inv (Recording.mapView view))
    : (chargedTable config table fee).Inv (Recording.mapView view) := by
  unfold chargedTable
  split
  . exact h
  . exact ⟨h.base, h.tracks⟩

variable [DecidableEq Blob]

theorem cause_applyOrdered {t : ApplyStateTable Blob (Recording σ)} (h : view.Inv t.base.view)
    {metadata : Metadata Blob} (hok : t.applyOrdered.1 = .ok metadata)
    : t.applyOrdered.2.base.cause = none := by
  unfold applyOrdered at hok ⊢
  cases hmetadata : t.buildMetadata with
  | error err =>
    rw [hmetadata] at hok
    cases hok
  | ok metadata' =>
    rw [hmetadata] at hok
    dsimp only at hok ⊢
    split at hok
    . cases hok
    . next hcommit =>
      have hcause := Recording.cause_eq_none_of_applyAtomically h hcommit
      rw [Recording.applyAtomically_ofList hcause] at hcommit ⊢
      exact hcommit

theorem cause_adoptIf {t t' : ApplyStateTable Blob (Recording σ)} (h : t'.Inv (Recording.mapView view))
    {metadata : Metadata Blob} (hok : (t.adoptIf t'.applyOrdered).1 = .ok metadata)
    : (t.adoptIf t'.applyOrdered).2.base.cause = none := by
  rw [adoptIf_fst] at hok
  rw [adoptIf_base]
  exact cause_applyOrdered h.base hok

variable [Sha512Half]

-- The writes of `applyTable`: threading is not committed to an open view.
def committedWrites (config : Config) (table : ApplyStateTable Blob (Recording σ)) (fee : UInt64)
    : List (Write Blob) :=
  (if config.isViewOpen then chargedTable config table fee
    else (chargedTable config table fee).applyThreading).commitWrites

structure Lands (view : MapView Blob σ) (config : Config) (table : ApplyStateTable Blob (Recording σ))
    (fee : UInt64) (metadata : Metadata Blob) (base : Recording σ)
    : Prop where
  cause : base.cause = none
  contents : view.contents base.view
    = Write.applyAll (committedWrites config table fee) (view.contents table.base.view)
  drops : view.dropsDestroyed base.view
    = Write.applyAllDrops (committedWrites config table fee) (view.dropsDestroyed table.base.view)
  committed : config.isViewOpen = false →
    (chargedTable config table fee).applyThreading.buildMetadata = .ok metadata
      ∧ Committed (Recording.mapView view) (chargedTable config table fee).applyThreading base

theorem applyTable_cases (config : Config) (fee : UInt64) (h : table.Inv (Recording.mapView view))
    : view.Inv (applyTable config table fee).2.view
      ∧ (SameView view table.base (applyTable config table fee).2
          ∧ (config.applyFlags.dryRun = true ∨ ∃ err, (applyTable config table fee).1 = .error err)
        ∨ config.applyFlags.dryRun = false ∧ ∃ metadata, (applyTable config table fee).1 = .ok metadata
          ∧ Lands view config table fee metadata (applyTable config table fee).2) := by
  have hinv := inv_chargedTable config fee h
  obtain ⟨hpreview, hpreviewInv, hpreviewSame⟩ := preview_same hinv
  rw [base_chargedTable] at hpreviewSame
  unfold applyTable
  cases hdry : config.applyFlags.dryRun with
  | true => exact ⟨hpreviewInv, .inl ⟨hpreviewSame, .inl rfl⟩⟩
  | false =>
    cases hopen : config.isViewOpen with
    | true =>
      simp only [if_true]
      cases hmetadata : (chargedTable config table fee).preview.1 with
      | error err => exact ⟨hpreviewInv, .inl ⟨hpreviewSame, .inr ⟨err, rfl⟩⟩⟩
      | ok metadata =>
        have hinv' : (chargedTable config table fee).preview.2.Inv (Recording.mapView view) := by
          refine ⟨hpreviewInv, ?_⟩
          have htracks := hinv.tracks
          rw [base_chargedTable] at htracks
          rw [hpreviewSame.contents]
          exact htracks
        obtain ⟨happlyInv, ⟨err, herr, hsame⟩ | ⟨metadata', hok, _, hcommitted⟩⟩ :=
          adoptIf_cases (Rethreaded.refl (f := id) _) hinv'
        . have herr' : (chargedTable config table fee).preview.2.applyUnthreaded.1 = .error err := herr
          rw [herr']
          exact ⟨happlyInv, .inl ⟨hpreviewSame.trans hsame, .inr ⟨err, rfl⟩⟩⟩
        have hok' : (chargedTable config table fee).preview.2.applyUnthreaded.1 = .ok metadata' := hok
        rw [hok']
        refine ⟨happlyInv, .inr ⟨trivial, metadata, rfl, cause_adoptIf hinv' hok, ?_, ?_, ?_⟩⟩
        . unfold committedWrites
          rw [hopen, if_pos rfl]
          exact hcommitted.contents.trans (congrArg _ hpreviewSame.contents)
        . unfold committedWrites
          rw [hopen, if_pos rfl]
          exact hcommitted.drops.trans (congrArg _ hpreviewSame.drops)
        intro hclosed
        rw [hopen] at hclosed
        cases hclosed
    | false =>
      simp only [Bool.false_eq_true, if_false]
      have hrethreaded : Rethreaded (Recording.mapView view) (fun _ => ()) (chargedTable config table fee)
          (chargedTable config table fee).applyThreading :=
        applyThreading_rethreaded ignoresThreading_trivial _
      obtain ⟨happlyInv, ⟨err, herr, hsame⟩ | ⟨metadata, hok, hmetadata, hcommitted⟩⟩ :=
        adoptIf_cases hrethreaded hinv
      . rw [base_chargedTable] at hsame
        exact ⟨happlyInv, .inl ⟨hsame, .inr ⟨err, herr⟩⟩⟩
      have hbase := hrethreaded.base_same hinv.base
      rw [base_chargedTable] at hbase
      refine ⟨happlyInv, .inr ⟨trivial, metadata, hok, ?_, ?_, ?_, fun _ => ⟨hmetadata, hcommitted⟩⟩⟩
      . exact cause_adoptIf (hrethreaded.inv hinv) hok
      . unfold committedWrites
        rw [hopen]
        exact hcommitted.contents.trans (congrArg _ hbase.contents)
      . unfold committedWrites
        rw [hopen]
        exact hcommitted.drops.trans (congrArg _ hbase.drops)

end Engine
