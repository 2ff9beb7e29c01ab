import GoXrpl.ApplyState.Lemmas.Items

open ApplyState.Items State.Contents

namespace ApplyState

open State

variable {Blob σ : Type} {t : ApplyStateTable Blob σ} {k : Keylet}

namespace ApplyStateTable

theorem tracks_cache (k : Keylet) {m : Contents Blob} (hm : m k.key = some data)
    : TrackedEntry.Tracks (m k.key) { action := .cache, original := some data, current := some data } where
  original := by
    rintro data' h
    cases h
    exact hm
  current := by simp
  cache := by simp
  insert := by simp

variable [LedgerView Blob σ]

theorem write_drops (w : Write Blob) (t : ApplyStateTable Blob σ)
    : (write w t).2.drops = w.applyDrops t.drops := by
  cases w with
  | insert k data =>
    change (t.insert k data).2.drops = t.drops
    unfold insert
    split
    . split <;> rfl
    dsimp only
    split <;> rfl
  | update k data =>
    change (t.update k data).2.drops = t.drops
    unfold update
    split
    . split <;> rfl
    dsimp only
    split <;> rfl
  | erase k =>
    change (t.erase k).2.drops = t.drops
    unfold erase
    dsimp only
    split
    . split
      . rfl
      . split <;> rfl
    . split <;> rfl
  | adjustDropsDestroyed amount => rfl

theorem applyAtomically_ok (hok : (t.applyAtomically body).1 = none)
    : (body.run write t).1 = none ∧ (t.applyAtomically body).2 = (body.run write t).2 := by
  unfold applyAtomically at *
  dsimp only at *
  split at hok
  . cases hok
  . next hrun => exact ⟨hrun, rfl⟩

theorem applyAtomically_fst (body : Writer Blob) (t : ApplyStateTable Blob σ)
    : (t.applyAtomically body).1 = (body.run write t).1 := by
  unfold applyAtomically
  dsimp only
  split <;> simp_all

theorem applyAtomically_error (body : Writer Blob) (herr : (t.applyAtomically body).1 = some err)
    : (t.applyAtomically body).2 = { t with base := (body.run write t).2.base } := by
  unfold applyAtomically at *
  dsimp only at *
  split at herr
  . rfl
  . cases herr

variable [Codec Blob]

structure Inv (view : MapView Blob σ) (t : ApplyStateTable Blob σ) : Prop where
  base : view.Inv t.base
  tracks : t.items.Tracks (view.contents t.base)

def contents (view : MapView Blob σ) (t : ApplyStateTable Blob σ) : Contents Blob :=
  overlay (view.contents t.base) t.items

def Coherent (view : MapView Blob σ) (t : ApplyStateTable Blob σ) : Prop :=
  t.items.Coherent (view.contents t.base) t.insertedKeys

structure Moved (view : MapView Blob σ) (t t' : ApplyStateTable Blob σ) (fits : Prop)
    (m' : Contents Blob)
    : Prop where
  inv : t'.Inv view
  base_same : view.Same t.base t'.base
  owners : t'.threadOnlyOwners = t.threadOnlyOwners
  coherent : t.Coherent view → fits → t'.Coherent view
  contents : t.Coherent view → fits → t'.contents view = m'

theorem inv_new {base : σ} (hbase : view.Inv base) (txHash : Hash256) (txSeq : UInt32) (fixPreviousTxnID : Bool)
    : (newApplyStateTable base txHash txSeq fixPreviousTxnID : ApplyStateTable Blob σ).Inv view where
  base := hbase
  tracks := tracks_empty _

theorem coherent_new (view : MapView Blob σ) (base : σ) (txHash : Hash256) (txSeq : UInt32)
    (fixPreviousTxnID : Bool)
    : (newApplyStateTable base txHash txSeq fixPreviousTxnID : ApplyStateTable Blob σ).Coherent view :=
  coherent_empty _

theorem contents_new (view : MapView Blob σ) (base : σ) (txHash : Hash256) (txSeq : UInt32)
    (fixPreviousTxnID : Bool)
    : (newApplyStateTable base txHash txSeq fixPreviousTxnID : ApplyStateTable Blob σ).contents view
        = view.contents base :=
  overlay_empty _

theorem Moved.base_contents (h : Moved view t t' fits m')
    : view.contents t'.base = view.contents t.base :=
  h.base_same.contents

theorem Moved.refl (h : t.Inv view) : Moved view t t True (t.contents view) where
  inv := h
  base_same := .refl _ _
  owners := rfl
  coherent := fun h _ => h
  contents := fun _ _ => rfl

theorem Moved.of_items (hbase : view.Inv t'.base) (hsame : view.Same t.base t'.base)
    (htracks : t'.items.Tracks (view.contents t.base))
    (howners : t'.threadOnlyOwners = t.threadOnlyOwners) (hcoherent : t.Coherent view → fits →
      t'.items.Coherent (view.contents t.base) t'.insertedKeys
        ∧ overlay (view.contents t.base) t'.items = m')
    : Moved view t t' fits m' where
  inv := ⟨hbase, hsame.contents ▸ htracks⟩
  base_same := hsame
  owners := howners
  coherent := by
    intro h hfits
    unfold Coherent
    rw [hsame.contents]
    exact (hcoherent h hfits).1
  contents := by
    intro h hfits
    unfold ApplyStateTable.contents
    rw [hsame.contents]
    exact (hcoherent h hfits).2

theorem Moved.rebase {base : σ} (h : t.Inv view) (hbase : view.Inv base)
    (hsame : view.Same t.base base)
    : Moved view t { t with base } True (t.contents view) :=
  .of_items hbase hsame h.tracks rfl fun hcoh _ => ⟨hcoh, rfl⟩

theorem Moved.query (h : t.Inv view) (q : Query)
    : Moved view t { t with base := (LedgerView.query q t.base).2 } True (t.contents view) :=
  .rebase h (view.query_inv q h.base) (view.same_query q h.base)

theorem Moved.track {items : Items Blob} {insertedKeys : OrderedLedgerKeys}
    (h : Moved view t t' True m) (htracks : items.Tracks (view.contents t.base))
    (hcoherent : t.Coherent view → fits → items.Coherent (view.contents t.base) insertedKeys
      ∧ overlay (view.contents t.base) items = m')
    : Moved view t { t' with items, insertedKeys } fits m' :=
  .of_items h.inv.base h.base_same htracks h.owners hcoherent

theorem Moved.weaken (h : Moved view t t' True m') : Moved view t t' fits m' where
  inv := h.inv
  base_same := h.base_same
  owners := h.owners
  coherent := fun hcoh _ => h.coherent hcoh trivial
  contents := fun hcoh _ => h.contents hcoh trivial

theorem read_moved (h : t.Inv view) (k : Keylet)
    : Moved view t (t.read k).2 True (t.contents view) := by
  unfold read
  cases hlookup : t.items.lookup k.key with
  | some entry =>
    dsimp
    split
    . exact Moved.refl h
    . split <;> exact Moved.refl h
  | none =>
    dsimp
    have hquery := Moved.query h (.read k)
    split
    . exact hquery
    . exact hquery
    . next data hread =>
      split
      . exact hquery
      have hdata := view.read_ok h.base hread
      have hstored := (find_eq_some.mp hdata.symm).1
      apply hquery.track
      . exact h.tracks.insert (tracks_cache k hstored)
      intro hcoh _
      constructor
      . apply Items.Coherent.insert_keep hcoh
        . simp
        . simp [TrackedEntry.Introduced, hcoh.not_mem_inserted_of_lookup_none hlookup]
      apply overlay_insert_of_live
      rw [overlay_of_lookup_none hlookup, hstored]
      rfl

theorem has_moved (h : t.Inv view) (k : Keylet)
    : Moved view t (t.has k).2 True (t.contents view) := by
  unfold has
  cases hlookup : t.items.lookup k.key with
  | some entry => exact Moved.refl h
  | none => exact Moved.query h (.has k)

theorem Moved.track_new (h : t.Inv view) (q : Query)
    (hfresh : fits → view.contents t.base k.key = none) (data : Blob)
    : Moved view t
        { t with
          base := (LedgerView.query q t.base).2
          insertedKeys := t.insertedKeys.add k.key
          items := t.items.insert k.key
            { action := .insert, original := none, current := some data } }
        fits (Function.update (t.contents view) k.key (some data)) := by
  apply (Moved.query h q).track
  . apply h.tracks.insert
    constructor <;> simp
  intro hcoh hfits
  constructor
  . apply Items.Coherent.insert_add hcoh (hfresh hfits)
    simp [TrackedEntry.Introduced]
  . exact overlay_insert _ _ _ _

theorem fits_base (hlookup : t.items.lookup k.key = none) (hfits : k.Fits (t.contents view))
    : k.Fits (view.contents t.base) := by
  intro data hdata
  apply hfits
  unfold contents
  rwa [overlay_of_lookup_none hlookup]

theorem insert_moved (h : t.Inv view) (k : Keylet) (data : Blob)
    : (∃ err, (t.insert k data).1 = some err ∧ Moved view t (t.insert k data).2 True (t.contents view))
      ∨ ((t.insert k data).1 = none
          ∧ Moved view t (t.insert k data).2 (k.Fits (t.contents view))
              (Function.update (t.contents view) k.key (some data))) := by
  unfold insert
  cases hlookup : t.items.lookup k.key with
  | some entry =>
    dsimp
    split
    . exact .inl ⟨_, rfl, Moved.refl h⟩
    . next herase =>
      rw [not_not] at herase
      refine .inr ⟨rfl, ?_⟩
      have htracks := h.tracks k.key entry hlookup
      apply (Moved.refl h).track
      . apply h.tracks.insert
        exact ⟨htracks.original, by simp, by simp, by simp⟩
      intro hcoh _
      have hfresh := hcoh.fresh k.key entry hlookup
      refine ⟨?_, overlay_insert _ _ _ _⟩
      cases horiginal : entry.original with
      | none =>
        apply Items.Coherent.insert_add hcoh (hfresh horiginal)
        simp [TrackedEntry.Introduced]
      | some original =>
        apply Items.Coherent.insert_keep hcoh
        . simp
        rw [hcoh.mem_inserted_of_lookup hlookup]
        simp [TrackedEntry.Introduced, horiginal]
  | none =>
    dsimp
    have hquery := Moved.query h (.has k)
    split
    . exact .inl ⟨_, rfl, hquery⟩
    . exact .inl ⟨_, rfl, hquery⟩
    . next hhas =>
      refine .inr ⟨rfl, Moved.track_new h (.has k) ?_ data⟩
      intro hfits
      have hfound := view.has_ok h.base (fits_base hlookup hfits) hhas
      simpa using hfound.symm

theorem update_moved (h : t.Inv view) (k : Keylet) (data : Blob)
    : (∃ err, (t.update k data).1 = some err ∧ Moved view t (t.update k data).2 True (t.contents view))
      ∨ ((t.update k data).1 = none
          ∧ Moved view t (t.update k data).2 (k.Fits (t.contents view))
              (Function.update (t.contents view) k.key (some data))) := by
  unfold update
  cases hlookup : t.items.lookup k.key with
  | some entry =>
    dsimp
    split
    . exact .inl ⟨_, rfl, Moved.refl h⟩
    . next herase =>
      refine .inr ⟨rfl, ?_⟩
      have htracks := h.tracks k.key entry hlookup
      -- a cached entry becomes a modified one, the others keep their action
      have hnew : ∀ action, (if entry.action = .cache then Action.modify else entry.action) = action →
          action ≠ .erase ∧ action ≠ .cache ∧ (action = .insert → entry.action = .insert) := by
        rintro action rfl
        split <;> simp_all
      obtain ⟨hnotErase, hnotCache, hinsert⟩ := hnew _ rfl
      apply (Moved.refl h).track
      . apply h.tracks.insert
        constructor
        . exact htracks.original
        . simp
        . exact fun hcache => absurd hcache hnotCache
        . exact fun haction => htracks.insert (hinsert haction)
      intro hcoh _
      constructor
      . apply Items.Coherent.insert_keep hcoh
        . exact hcoh.fresh k.key entry hlookup
        rw [hcoh.mem_inserted_of_lookup hlookup]
        simp only [TrackedEntry.Introduced]
        tauto
      rw [overlay_insert]
      unfold TrackedEntry.live
      rw [if_neg hnotErase]
      rfl
  | none =>
    dsimp
    have hquery := Moved.query h (.read k)
    split
    . exact .inl ⟨_, rfl, hquery⟩
    . next hread =>
      refine .inr ⟨rfl, Moved.track_new h (.read k) ?_ data⟩
      intro hfits
      have hfound := view.read_ok h.base hread
      rw [find_of_fits (fits_base hlookup hfits)] at hfound
      exact hfound.symm
    . next original hread =>
      have hstored := (find_eq_some.mp (view.read_ok h.base hread).symm).1
      refine .inr ⟨rfl, ?_⟩
      apply hquery.track
      . apply h.tracks.insert
        constructor
        . rintro data' heq
          cases heq
          exact hstored
        . simp
        . simp
        . simp
      intro hcoh _
      constructor
      . apply Items.Coherent.insert_keep hcoh
        . simp
        . simp [TrackedEntry.Introduced, hcoh.not_mem_inserted_of_lookup_none hlookup]
      . exact overlay_insert _ _ _ _

theorem erase_moved (h : t.Inv view) (k : Keylet)
    : (∃ err, (t.erase k).1 = some err ∧ Moved view t (t.erase k).2 True (t.contents view))
      ∨ ((t.erase k).1 = none
          ∧ Moved view t (t.erase k).2 (k.Fits (t.contents view))
              (Function.update (t.contents view) k.key none)) := by
  unfold erase
  dsimp only
  cases hlookup : t.items.lookup k.key with
  | some entry =>
    have htracks := h.tracks k.key entry hlookup
    dsimp
    split
    . next herase =>
      refine .inl ⟨_, rfl, ?_⟩
      apply (Moved.refl h).track
      . exact h.tracks
      intro hcoh _
      refine ⟨hcoh.remove_of_not_introduced ?_, rfl⟩
      rw [hcoh.mem_inserted_of_lookup hlookup]
      simp [TrackedEntry.Introduced, herase]
    . next herase =>
      split
      . next hinsert =>
        refine .inr ⟨rfl, ?_⟩
        apply (Moved.refl h).track
        . exact h.tracks.erase k.key
        intro hcoh _
        refine ⟨hcoh.erase k.key, ?_⟩
        exact overlay_erase (hcoh.fresh k.key entry hlookup (htracks.insert hinsert))
      refine .inr ⟨rfl, ?_⟩
      apply (Moved.refl h).track
      . apply h.tracks.insert
        exact ⟨htracks.original, by simp, by simp, by simp⟩
      intro hcoh _
      refine ⟨?_, overlay_insert _ _ _ _⟩
      apply Items.Coherent.insert_remove hcoh
      . exact hcoh.fresh k.key entry hlookup
      . simp [TrackedEntry.Introduced]
  | none =>
    dsimp
    have hquery := Moved.query h (.read k)
    split
    . refine .inl ⟨_, rfl, ?_⟩
      apply hquery.track
      . exact h.tracks
      intro hcoh _
      exact ⟨hcoh.remove_of_not_introduced (hcoh.not_mem_inserted_of_lookup_none hlookup), rfl⟩
    . next original hread =>
      have hfound := view.read_ok h.base hread
      refine .inr ⟨rfl, ?_⟩
      apply hquery.track
      . apply h.tracks.insert
        constructor
        . intro data heq
          rw [show original = some data from heq] at hfound
          exact (find_eq_some.mp hfound.symm).1
        . simp
        . simp
        . simp
      intro hcoh hfits
      refine ⟨?_, overlay_insert _ _ _ _⟩
      apply Items.Coherent.insert_remove hcoh
      . intro heq
        rw [find_of_fits (fits_base hlookup hfits)] at hfound
        rw [← hfound]
        exact heq
      . simp [TrackedEntry.Introduced]

theorem write_moved (h : t.Inv view) (w : Write Blob)
    : (∃ err, (write w t).1 = some err ∧ Moved view t (write w t).2 True (t.contents view))
      ∨ ((write w t).1 = none
          ∧ Moved view t (write w t).2 (w.Fits (t.contents view)) (w.apply (t.contents view))) := by
  cases w with
  | insert k data => exact insert_moved h k data
  | update k data => exact update_moved h k data
  | erase k => exact erase_moved h k
  | adjustDropsDestroyed drops =>
    refine .inr ⟨rfl, ?_⟩
    exact ⟨⟨h.base, h.tracks⟩, .refl _ _, rfl, fun hcoh _ => hcoh, fun _ _ => rfl⟩

theorem write_fresh (h : t.Inv view) (hfits : w.Fits (t.contents view)) (hok : (write w t).1 = none)
    : w.Fresh (t.contents view) := by
  cases w with
  | insert k data =>
    change (t.insert k data).1 = none at hok
    change t.contents view k.key = none
    unfold insert at hok
    unfold contents
    cases hlookup : t.items.lookup k.key with
    | some entry =>
      rw [hlookup] at hok
      dsimp only at hok
      rw [overlay_of_lookup hlookup, TrackedEntry.live]
      split at hok
      . cases hok
      . next herase => rw [if_pos (not_not.mp herase)]
    | none =>
      rw [hlookup] at hok
      dsimp only at hok
      rw [overlay_of_lookup_none hlookup]
      split at hok
      . cases hok
      . cases hok
      . next hhas =>
        have hfound := view.has_ok h.base (fits_base hlookup hfits) hhas
        simpa using hfound.symm
  | update k data => trivial
  | erase k => trivial
  | adjustDropsDestroyed amount => trivial

theorem Moved.trans (h : Moved view t t' fits m') (h' : Moved view t' t'' fits' m'')
    : Moved view t t'' (fits ∧ fits') m'' where
  inv := h'.inv
  base_same := h.base_same.trans h'.base_same
  owners := h'.owners.trans h.owners
  coherent := fun hcoh hfits => h'.coherent (h.coherent hcoh hfits.1) hfits.2
  contents := fun hcoh hfits => h'.contents (h.coherent hcoh hfits.1) hfits.2

theorem Moved.mono
    (h : Moved view t t' fits m') (hfits : fits' → fits) (hm : t.Coherent view → fits' → m' = m'')
    : Moved view t t' fits' m'' where
  inv := h.inv
  base_same := h.base_same
  owners := h.owners
  coherent := fun hcoh hfits' => h.coherent hcoh (hfits hfits')
  contents := fun hcoh hfits' => (h.contents hcoh (hfits hfits')).trans (hm hcoh hfits')

theorem run_moved (h : t.Inv view) (body : Writer Blob)
    : Moved view t (body.run write t).2 (body.Fits write (contents view) t)
        (Write.applyAll (body.successes write t) (t.contents view)) := by
  induction body generalizing t with
  | done err => exact (Moved.refl h).weaken
  | write w next ih =>
    rcases write_moved h w with ⟨err, hfail, hmoved⟩ | ⟨hok, hmoved⟩
    . have hstep := hmoved.trans (ih (write w t).1 hmoved.inv)
      apply hstep.mono
      . exact fun hfits => ⟨trivial, hfits.2⟩
      intro hcoh _
      rw [hmoved.contents hcoh trivial]
      simp [Writer.successes, hfail]
    have hstep := hmoved.trans (ih (write w t).1 hmoved.inv)
    apply hstep.mono
    . exact fun hfits => hfits
    intro hcoh hfits
    rw [hmoved.contents hcoh hfits.1]
    simp [Writer.successes, hok]

theorem run_fresh (h : t.Inv view) (hcoh : t.Coherent view)
    (huntyped : ∀ w ∈ ws, w.Untyped) (hok : ((Writer.ofList ws).run write t).1 = none)
    : Write.InsertsFresh ws (t.contents view) := by
  induction ws generalizing t with
  | nil => trivial
  | cons w ws ih =>
    unfold Writer.ofList Writer.run at hok
    have hfits := Write.fits_of_untyped (huntyped w List.mem_cons_self) (t.contents view)
    rcases write_moved h w with ⟨err, hfail, _⟩ | ⟨hw, hmoved⟩
    . rw [hfail] at hok
      cases hok
    rw [hw] at hok
    refine ⟨write_fresh h hfits hw, ?_⟩
    rw [← hmoved.contents hcoh hfits]
    exact ih hmoved.inv (hmoved.coherent hcoh hfits)
      (fun w' hw' => huntyped w' (List.mem_cons_of_mem _ hw')) hok

theorem applyAtomically_moved (h : t.Inv view) (body : Writer Blob)
    : (∃ err, (t.applyAtomically body).1 = some err
        ∧ Moved view t (t.applyAtomically body).2 True (t.contents view))
      ∨ ((t.applyAtomically body).1 = none
          ∧ Moved view t (t.applyAtomically body).2 (body.Fits write (contents view) t)
              (Write.applyAll (body.successes write t) (t.contents view))) := by
  have hrun := run_moved h body
  cases herr : (t.applyAtomically body).1 with
  | none =>
    refine .inr ⟨rfl, ?_⟩
    rw [(applyAtomically_ok herr).2]
    exact hrun
  | some err =>
    refine .inl ⟨err, rfl, ?_⟩
    rw [applyAtomically_error body herr]
    exact .rebase h hrun.inv.base hrun.base_same

end ApplyStateTable

end ApplyState
