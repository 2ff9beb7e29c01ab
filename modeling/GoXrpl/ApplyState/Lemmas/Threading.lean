import GoXrpl.ApplyState.Lemmas.Commit

open Option ApplyState.TrackedEntry

namespace ApplyState

open State

variable {Blob σ γ : Type} {t t' t'' : ApplyStateTable Blob σ}

theorem ApplyStateTable.adoptIf_fst (t : ApplyStateTable Blob σ)
    (staged : Except Error (Metadata Blob) × ApplyStateTable Blob σ)
    : (t.adoptIf staged).1 = staged.1 := by
  unfold adoptIf
  split
  . next err herr => exact herr.symm
  . next metadata hok => exact hok.symm

theorem ApplyStateTable.adoptIf_base (t : ApplyStateTable Blob σ)
    (staged : Except Error (Metadata Blob) × ApplyStateTable Blob σ)
    : (t.adoptIf staged).2.base = staged.2.base := by
  unfold adoptIf
  split <;> rfl

theorem ApplyStateTable.adoptIf_error (herr : (t.adoptIf staged).1 = .error err)
    : (t.adoptIf staged).2 = { t with base := staged.2.base } := by
  rw [adoptIf_fst] at herr
  unfold adoptIf
  rw [herr]

-- What `f` sees of a tracked entry
def TrackedEntry.seen (f : Blob → γ) (e : TrackedEntry Blob) : Action × Option Blob × Option γ :=
  (e.action, e.original, e.current.map f)

theorem ApplyStateTable.overlay_eqUpTo (h : ∀ k, (t'.items.lookup k).map (seen f)
      = (t.items.lookup k).map (seen f))
    (m : Contents Blob)
    : Contents.EqUpTo f (t'.items.overlay m) (t.items.overlay m) := by
  intro k
  have hk := h k
  cases hlookup : t.items.lookup k with
  | none =>
    rw [hlookup, map_none, map_eq_none_iff] at hk
    rw [Items.overlay_of_lookup_none hlookup, Items.overlay_of_lookup_none hk]
  | some e =>
    rw [hlookup, map_some, map_eq_some_iff] at hk
    obtain ⟨e', hlookup', hseen⟩ := hk
    unfold seen at hseen
    simp only [Prod.mk.injEq] at hseen
    rw [Items.overlay_of_lookup hlookup, Items.overlay_of_lookup hlookup']
    unfold live
    rw [hseen.1]
    split
    . rfl
    . exact hseen.2.2

variable [Codec Blob]

def IgnoresThreading (f : Blob → γ) : Prop :=
  ∀ typ data txHash seq data', Codec.setPreviousTxn typ data txHash seq = some data' →
    f data' = f data

theorem ignoresThreading_trivial
    : IgnoresThreading (fun _ : Blob => ()) := fun _ _ _ _ _ _ => rfl

theorem IgnoresThreading.threadItem (hf : IgnoresThreading f) {data newData : Blob}
    (h : (threadItem data txHash seq).newData = some newData)
    : f newData = f data := by
  unfold ApplyState.threadItem at h
  split at h
  . cases h
  split at h
  . cases h
  split at h
  . cases h
  dsimp at h
  split at h
  . cases h
  . exact hf _ _ _ _ _ h

variable [LedgerView Blob σ]

namespace ApplyStateTable

def OwnersSeen (view : MapView Blob σ) (f : Blob → γ) (t : ApplyStateTable Blob σ) : Prop :=
  ∀ k owner, t.threadOnlyOwners.lookup k = some owner →
    (t.contents view k).map f = some (f owner.updated)

structure Rethreaded (view : MapView Blob σ) (f : Blob → γ) (t t' : ApplyStateTable Blob σ)
    : Prop where
  base_inv : view.Inv t.base → view.Inv t'.base
  base_same : view.Inv t.base → view.Same t.base t'.base
  lookup : ∀ k, (t'.items.lookup k).map (seen f)
    = (t.items.lookup k).map (seen f)
  tracks : ∀ m, t.items.Tracks m → t'.items.Tracks m
  owners : view.Inv t.base → OwnersSeen view f t → OwnersSeen view f t'
  drops : t'.drops = t.drops

variable {view : MapView Blob σ} {f : Blob → γ}

namespace Rethreaded

theorem refl (t : ApplyStateTable Blob σ) : Rethreaded view f t t :=
  ⟨id, fun _ => .refl _ _, fun _ => rfl, fun _ => id, fun _ => id, rfl⟩

theorem trans (h : Rethreaded view f t t') (h' : Rethreaded view f t' t'')
    : Rethreaded view f t t'' where
  base_inv := fun hinv => h'.base_inv (h.base_inv hinv)
  base_same := fun hinv => (h.base_same hinv).trans (h'.base_same (h.base_inv hinv))
  lookup := fun k => (h'.lookup k).trans (h.lookup k)
  tracks := fun m htracks => h'.tracks m (h.tracks m htracks)
  owners := fun hinv howners => h'.owners (h.base_inv hinv) (h.owners hinv howners)
  drops := h'.drops.trans h.drops

theorem base_contents (h : Rethreaded view f t t') (hinv : view.Inv t.base)
    : view.contents t'.base = view.contents t.base :=
  (h.base_same hinv).contents

theorem foldl {α : Type} {step : ApplyStateTable Blob σ → α → ApplyStateTable Blob σ}
    (hstep : ∀ t a, Rethreaded view f t (step t a)) (l : List α) (t : ApplyStateTable Blob σ)
    : Rethreaded view f t (l.foldl step t) := by
  induction l generalizing t with
  | nil => exact refl t
  | cons a l ih => exact (hstep t a).trans (ih (step t a))

theorem contents_eqUpTo (h : Rethreaded view f t t') (hinv : view.Inv t.base)
    : Contents.EqUpTo f (t'.contents view) (t.contents view) := by
  unfold contents
  rw [h.base_contents hinv]
  exact overlay_eqUpTo h.lookup _

theorem query (q : Query) (t : ApplyStateTable Blob σ)
    : Rethreaded view f t { t with base := (LedgerView.query q t.base).2 } where
  base_inv := view.query_inv q
  base_same := view.same_query q
  lookup := fun _ => rfl
  tracks := fun _ => id
  owners := by
    intro hinv howners k owner hlookup
    have := howners k owner hlookup
    unfold contents at *
    rwa [view.query_contents q hinv]
  drops := rfl

theorem setItem (hlookup : t.items.lookup k = some e)
    (hseen : e'.seen f = e.seen f) (htracks : ∀ stored, e.Tracks stored → e'.Tracks stored)
    : Rethreaded view f t { t with items := t.items.insert k e' } := by
  have hsame : ∀ k', ((t.items.insert k e').lookup k').map (seen f)
      = (t.items.lookup k').map (seen f) := by
    intro k'
    by_cases hk : k' = k
    . subst hk
      rw [AList.lookup_insert, hlookup, map_some, map_some, hseen]
    . rw [AList.lookup_insert_ne hk]
  constructor
  . exact id
  . exact fun _ => .refl _ _
  . exact hsame
  . exact fun m h => h.insert (htracks _ (h k e hlookup))
  . intro _ howners k' owner howner
    exact (overlay_eqUpTo hsame _ k').trans (howners k' owner howner)
  . rfl

theorem inv (h : Rethreaded view f t t') (hinv : t.Inv view) : t'.Inv view where
  base := h.base_inv hinv.base
  tracks := by
    rw [h.base_contents hinv.base]
    exact h.tracks _ hinv.tracks

end Rethreaded

section Loop

variable (hf : IgnoresThreading f)

include hf

theorem setThreaded_rethreaded {current : Blob}
    (hlookup : t.items.lookup k = some entry) (hcurrent : entry.current = some current)
    (hcache : entry.action ≠ .cache) (txHash : Hash256) (seq : UInt32)
    : Rethreaded view f t (t.setThreaded k entry (threadItem current txHash seq).newData) := by
  unfold setThreaded
  split
  . exact .refl t
  . next newData hnew =>
    apply Rethreaded.setItem hlookup
    . simp [seen, hcurrent, hf.threadItem hnew]
    intro stored htracks
    constructor
    . exact htracks.original
    . simp
    . exact fun h => absurd h hcache
    . exact htracks.insert

theorem threadOnly_rethreaded {data : Blob} (h : Rethreaded view f t t')
    (hdata : view.Inv t.base → t'.contents view k = some data)
    : Rethreaded view f t (t'.threadOnly k data) := by
  unfold threadOnly
  dsimp
  split
  . next newData ownerType hnew _ =>
    constructor
    . exact h.base_inv
    . exact h.base_same
    . exact h.lookup
    . exact h.tracks
    . intro hinv howners k' owner howner
      rcases Assoc.lookup_insert_cases howner with ⟨rfl, rfl⟩ | howner
      . change Option.map f (t'.contents view k') = some (f newData)
        rw [hdata hinv, hf.threadItem hnew]
        rfl
      . exact h.owners hinv howners k' owner howner
    . exact h.drops
  . exact h

variable [DecidableEq Blob] [Sha512Half]

theorem threadOwner_rethreaded (sourceKey : Hash256) (t : ApplyStateTable Blob σ) (ownerID : AccountID)
    : Rethreaded view f t (threadOwner sourceKey t ownerID) := by
  unfold threadOwner
  dsimp
  cases hlookup : t.items.lookup (Keylet.account ownerID).key with
  | some entry =>
    dsimp
    split
    . exact .refl t
    . next current hcurrent =>
      split
      . exact .refl t
      . next herase =>
        have hcontents : t.contents view (Keylet.account ownerID).key = some current := by
          rw [contents_of_lookup hlookup, live, if_neg herase, hcurrent]
        split
        . next hcache =>
          split
          . exact threadOnly_rethreaded hf (Rethreaded.refl t) fun _ => hcontents
          . exact setThreaded_rethreaded hf hlookup hcurrent hcache _ _
        . exact threadOnly_rethreaded hf (Rethreaded.refl t) fun _ => hcontents
  | none =>
    dsimp
    split
    . next ownerData hread =>
      apply threadOnly_rethreaded hf (Rethreaded.query (.read (Keylet.account ownerID)) t)
      intro hinv
      have hstored := (Contents.find_eq_some.mp (view.read_ok hinv hread).symm).1
      unfold contents
      rw [Items.overlay_of_lookup_none hlookup, ← hstored]
      exact congrFun (view.query_contents (.read (Keylet.account ownerID)) hinv) _
    . exact .query (.read (Keylet.account ownerID)) t

theorem threadOwners_rethreaded (sourceKey : Hash256) (data : Option Blob) (entryType : EntryType)
    (t : ApplyStateTable Blob σ)
    : Rethreaded view f t (t.threadOwners sourceKey data entryType) := by
  unfold threadOwners
  split
  . exact .refl t
  . exact .foldl (threadOwner_rethreaded hf sourceKey) _ t

theorem threadEntry_rethreaded (t : ApplyStateTable Blob σ) (key : Hash256)
    : Rethreaded view f t (t.threadEntry key) := by
  unfold threadEntry
  split
  . exact .refl t
  . next entry hlookup =>
    split
    . exact .refl t
    . next entryType _ =>
      split
      . next current haction hcurrent =>
        refine Rethreaded.trans ?_ (threadOwners_rethreaded hf _ _ _ _)
        split
        . exact setThreaded_rethreaded hf hlookup hcurrent (by simp [haction]) _ _
        . exact .refl t
      . next current haction hcurrent =>
        split
        . exact .refl t
        split
        . apply Rethreaded.setItem hlookup
          . unfold seen
            cases hnew : (threadItem current t.txHash t.txSeq).newData with
            | none => simp [hcurrent]
            | some newData => simp [hcurrent, hf.threadItem hnew]
          intro stored htracks
          constructor
          . exact htracks.original
          . simp
          . simp [haction]
          . simp [haction]
        . exact .refl t
      . exact threadOwners_rethreaded hf _ _ _ _
      . exact .refl t

theorem applyThreading_rethreaded (t : ApplyStateTable Blob σ)
    : Rethreaded view f t t.applyThreading :=
  Rethreaded.foldl (threadEntry_rethreaded hf) _ t

end Loop

variable [DecidableEq Blob]

structure Committed (view : MapView Blob σ) (t : ApplyStateTable Blob σ) (base : σ) : Prop where
  contents : view.contents base = Write.applyAll t.commitWrites (view.contents t.base)
  drops : view.dropsDestroyed base = Write.applyAllDrops t.commitWrites (view.dropsDestroyed t.base)
  fresh : Write.InsertsFresh t.commitWrites (view.contents t.base)

theorem applyOrdered_cases (h : t.Inv view)
    : view.Inv t.applyOrdered.2.base
      ∧ ((∃ err, t.applyOrdered.1 = .error err ∧ view.Same t.base t.applyOrdered.2.base)
        ∨ ∃ metadata, t.applyOrdered.1 = .ok metadata ∧ t.buildMetadata = .ok metadata
          ∧ Committed view t t.applyOrdered.2.base) := by
  have huntyped := untyped_commitWrites t
  unfold applyOrdered
  cases hmetadata : t.buildMetadata with
  | error err => exact ⟨h.base, .inl ⟨err, rfl, rfl, rfl⟩⟩
  | ok metadata =>
    dsimp only
    have hinv := view.atomically_inv h.base (Writer.all_ofList huntyped)
    split
    . next err herr =>
      refine ⟨hinv, .inl ⟨err, rfl, ?_⟩⟩
      obtain ⟨hcontents, hdrops⟩ := view.atomically_error h.base (Writer.all_ofList huntyped) herr
      exact ⟨hcontents, hdrops⟩
    . next hok =>
      refine ⟨hinv, .inr ⟨metadata, rfl, rfl, ?_⟩⟩
      constructor
      . exact view.atomically_ok h.base huntyped hok
      . exact view.atomically_drops h.base huntyped hok
      . exact view.atomically_fresh h.base huntyped hok

theorem Committed.dropsDestroyed {base : σ} (hcommitted : Committed view t base)
    : view.dropsDestroyed base
        = if t.drops > 0 then view.dropsDestroyed t.base + t.drops else view.dropsDestroyed t.base := by
  rw [hcommitted.drops, applyAllDrops_commitWrites]

theorem Committed.fresh_of_insert {base : σ} {e : TrackedEntry Blob}
    (hcommitted : Committed view t base) (hinv : t.Inv view) (hlookup : t.items.lookup k = some e)
    (haction : e.action = .insert)
    : view.contents t.base k = none := by
  obtain ⟨current, hcurrent⟩ := isSome_iff_exists.mp
    ((hinv.tracks k e hlookup).current (by rw [haction]; decide))
  have hk : k ∈ t.sortedItems := by
    apply mem_sortLedgerKeys.mpr
    rw [← AList.mem_keys, ← AList.lookup_isSome, hlookup]
    rfl
  have hwrite : t.itemWrite k = some (.insert (.ofKey k) current) := by
    unfold itemWrite
    rw [hlookup]
    simp [haction, hcurrent]
  exact fresh_commitWrites hcommitted.fresh hk hwrite

theorem Committed.eqUpTo {base : σ} (hrethreaded : Rethreaded view f t t') (h : t.Inv view)
    (howners : t.threadOnlyOwners = ∅) (hcommitted : Committed view t' base)
    : Contents.EqUpTo f (view.contents base) (t.contents view) := by
  have hseen : OwnersSeen view f t' := by
    apply hrethreaded.owners h.base
    intro k owner howner
    rw [howners, AList.lookup_empty] at howner
    cases howner
  apply Contents.EqUpTo.trans _ (hrethreaded.contents_eqUpTo h.base)
  intro k
  rw [hcommitted.contents, applyAll_commitWrites (hrethreaded.inv h).tracks]
  cases howner : t'.threadOnlyOwners.lookup k with
  | none => rfl
  | some owner => exact (hseen k owner howner).symm

theorem commit_contents (hrethreaded : Rethreaded view f t t') (h : t.Inv view)
    (howners : t.threadOnlyOwners = ∅) (hok : t'.applyOrdered.1 = .ok metadata)
    : Contents.EqUpTo f (view.contents t'.applyOrdered.2.base) (t.contents view) := by
  obtain ⟨_, ⟨err, herr, _⟩ | ⟨_, _, _, hcommitted⟩⟩ := applyOrdered_cases (hrethreaded.inv h)
  . rw [hok] at herr
    cases herr
  . exact hcommitted.eqUpTo hrethreaded h howners

section Adopt

variable (hrethreaded : Rethreaded view f t t') (h : t.Inv view)

include hrethreaded h

theorem adoptIf_cases
    : view.Inv (t.adoptIf t'.applyOrdered).2.base
      ∧ ((∃ err, (t.adoptIf t'.applyOrdered).1 = .error err
          ∧ view.Same t.base (t.adoptIf t'.applyOrdered).2.base)
        ∨ ∃ metadata, (t.adoptIf t'.applyOrdered).1 = .ok metadata ∧ t'.buildMetadata = .ok metadata
          ∧ Committed view t' (t.adoptIf t'.applyOrdered).2.base) := by
  rw [adoptIf_fst, adoptIf_base]
  obtain ⟨hinv, ⟨err, herr, hsame⟩ | hok⟩ := applyOrdered_cases (hrethreaded.inv h)
  . exact ⟨hinv, .inl ⟨err, herr, (hrethreaded.base_same h.base).trans hsame⟩⟩
  . exact ⟨hinv, .inr hok⟩

end Adopt

variable [Sha512Half]

theorem preview_same (h : t.Inv view)
    : t.preview.2 = { t with base := t.preview.2.base }
      ∧ view.Inv t.preview.2.base ∧ view.Same t.base t.preview.2.base :=
  have hrethreaded : Rethreaded view (fun _ => ()) t t.applyThreading :=
    applyThreading_rethreaded ignoresThreading_trivial t
  ⟨rfl, hrethreaded.base_inv h.base, hrethreaded.base_same h.base⟩

end ApplyStateTable

end ApplyState
