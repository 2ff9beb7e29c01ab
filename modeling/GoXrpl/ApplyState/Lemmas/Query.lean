import GoXrpl.ApplyState.Lemmas.Table

open List Option ApplyState.TrackedEntry ApplyState.Items

namespace ApplyState

open State Search

variable {Blob σ : Type} [Codec Blob] [LedgerView Blob σ]

namespace ApplyStateTable

variable {view : MapView Blob σ} {t : ApplyStateTable Blob σ}

variable {base : σ}

theorem contents_of_lookup (hlookup : t.items.lookup key = some entry)
    : t.contents view key = entry.live :=
  overlay_of_lookup hlookup

theorem contents_of_lookup_none (hlookup : t.items.lookup key = none)
    : t.contents view key = view.contents t.base key :=
  overlay_of_lookup_none hlookup

theorem read_ok (h : t.Inv view) (hread : (t.read k).1 = .ok data)
    : data = (t.contents view).find k := by
  unfold read at hread
  unfold Contents.find
  cases hlookup : t.items.lookup k.key with
  | some entry =>
    rw [hlookup] at hread
    rw [contents_of_lookup hlookup]
    dsimp at hread
    unfold live
    split at hread
    . next herase =>
      cases hread
      simp [herase]
    . next herase =>
      have hsome := (h.tracks k.key entry hlookup).current herase
      obtain ⟨current, hcurrent⟩ := isSome_iff_exists.mp hsome
      rw [if_neg herase]
      rw [hcurrent] at hread ⊢
      split at hread
      . next hmatches =>
        cases hread
        have hother : matchesKeyletType k current = false := by simpa [matchesData] using hmatches
        rw [filter_some, hother]
        rfl
      . next hmatches =>
        cases hread
        have htype : matchesKeyletType k current = true := by simpa [matchesData] using hmatches
        rw [filter_some, htype]
        rfl
  | none =>
    rw [hlookup] at hread
    rw [contents_of_lookup_none hlookup]
    dsimp at hread
    split at hread
    . cases hread
    . next hbase =>
      cases hread
      exact view.read_ok h.base hbase
    . next data' hbase =>
      have hfound := view.read_ok h.base hbase
      split at hread
      . next hmatches =>
        have := (Contents.find_eq_some.mp hfound.symm).2
        simp [this] at hmatches
      cases hread
      exact hfound

theorem has_ok (h : t.Inv view) (hfits : k.Fits (t.contents view)) (hhas : (t.has k).1 = .ok found)
    : found = (t.contents view k.key).isSome := by
  unfold has at hhas
  cases hlookup : t.items.lookup k.key with
  | some entry =>
    rw [hlookup] at hhas
    cases hhas
    unfold Keylet.Fits at hfits
    rw [contents_of_lookup hlookup] at hfits ⊢
    unfold live at *
    by_cases herase : entry.action = .erase
    . simp [herase]
    have hsome := (h.tracks k.key entry hlookup).current herase
    obtain ⟨current, hcurrent⟩ := isSome_iff_exists.mp hsome
    rw [if_neg herase, hcurrent] at hfits ⊢
    simp [herase, matchesData, hfits current rfl]
  | none =>
    rw [hlookup] at hhas
    rw [contents_of_lookup_none hlookup]
    exact view.has_ok h.base (fits_base hlookup hfits) hhas

-- What the table hands out itself: its entries that are not erased
def tracked (items : Items Blob) : List (Hash256 × Blob) :=
  items.entries.filterMap fun item =>
    if item.2.action = .erase then none else item.2.current.map (item.1, ·)

omit [Codec Blob] in
theorem mem_tracked {items : Items Blob}
    : (key, data) ∈ tracked items ↔ ∃ entry, items.lookup key = some entry ∧ entry.live = some data := by
  unfold tracked
  rw [mem_filterMap]
  constructor
  . rintro ⟨⟨key', entry⟩, hmem, hitem⟩
    split at hitem
    . cases hitem
    . next herase =>
      obtain ⟨current, hcurrent, heq⟩ := map_eq_some_iff.mp hitem
      cases heq
      refine ⟨entry, AList.mem_lookup_iff.mpr hmem, ?_⟩
      rw [live, if_neg herase, hcurrent]
  rintro ⟨entry, hlookup, hlive⟩
  refine ⟨⟨key, entry⟩, AList.mem_lookup_iff.mp hlookup, ?_⟩
  unfold live at hlive
  split at hlive
  . cases hlive
  . next herase => simp [herase, hlive]

omit [Codec Blob] in
theorem nodup_tracked (items : Items Blob) : ((tracked items).map Prod.fst).Nodup := by
  apply List.Sublist.nodup _ items.keys_nodup
  unfold tracked AList.keys keys
  induction items.entries with
  | nil => simp
  | cons item rest ih =>
    rw [filterMap_cons, map_cons]
    split
    . exact ih.cons _
    . next e he =>
      split at he
      . cases he
      obtain ⟨current, hcurrent, heq⟩ := map_eq_some_iff.mp he
      subst heq
      exact ih.cons_cons _

theorem forEach_ok (h : t.Inv view) (hforEach : t.forEach.1 = .ok entries)
    : (t.contents view).Enumerates entries := by
  unfold forEach at hforEach
  dsimp at hforEach
  split at hforEach
  . cases hforEach
  . next below hbelow =>
    have henum := view.forEach_ok h.base hbelow
    cases hforEach
    change Contents.Enumerates _ (tracked t.items ++ _)
    constructor
    . rw [map_append, nodup_append]
      refine ⟨nodup_tracked t.items, ?_, ?_⟩
      . exact henum.nodup.sublist (filter_sublist.map Prod.fst)
      rintro key hkey key' hkey' rfl
      obtain ⟨⟨_, data⟩, htracked, rfl⟩ := mem_map.mp hkey
      obtain ⟨⟨_, data'⟩, hother, heq⟩ := mem_map.mp hkey'
      obtain ⟨entry, hlookup, _⟩ := mem_tracked.mp htracked
      have hnone := (mem_filter.mp hother).2
      rw [heq, hlookup] at hnone
      cases hnone
    intro key data
    rw [mem_append, mem_tracked, mem_filter, henum.mem_iff]
    cases hlookup : t.items.lookup key with
    | some entry => simp [contents_of_lookup hlookup]
    | none => simp [contents_of_lookup_none hlookup]

theorem baseSucc_keeps (items : Items Blob) (fuel : Nat) (searchBase : Hash256) (h : view.Inv base)
    : view.Inv (baseSucc items fuel searchBase base).2
      ∧ view.Same base (baseSucc items fuel searchBase base).2 := by
  induction fuel generalizing searchBase base with
  | zero => exact ⟨h, .refl _ _⟩
  | succ fuel ih =>
    have hinv := view.query_inv (.succ searchBase) h
    have hsame := view.same_query (.succ searchBase) h
    unfold baseSucc
    dsimp
    split
    . exact ⟨hinv, hsame⟩
    . exact ⟨hinv, hsame⟩
    split
    . exact ⟨hinv, hsame⟩
    split
    . obtain ⟨hinv', hsame'⟩ := ih _ hinv
      exact ⟨hinv', hsame.trans hsame'⟩
    . exact ⟨hinv, hsame⟩

def LiveBelow (m : Contents Blob) (items : Items Blob) (k : Hash256) : Prop :=
  (m k).isSome ∧ (items.overlay m k).isSome

-- `ahead` lists the tracked keys that the loop may still pass.
theorem baseSucc_ok {items : Items Blob} (fuel : Nat) (searchBase : Hash256)
    (h : view.Inv base) (htracks : items.Tracks (view.contents base)) (ahead : List Hash256)
    (hahead : ∀ k ∈ items, searchBase < k → k ∈ ahead) (hfuel : ahead.length < fuel)
    {next : Option (Hash256 × Blob)} (hsucc : (baseSucc items fuel searchBase base).1 = .ok next)
    : IsNext (LiveBelow (view.contents base) items) searchBase (next.map Prod.fst)
      ∧ ∀ e ∈ next, items.overlay (view.contents base) e.1 = some e.2 := by
  induction fuel generalizing searchBase base ahead with
  | zero => omega
  | succ fuel ih =>
    have hinv := view.query_inv (.succ searchBase) h
    have hcontents := view.query_contents (.succ searchBase) h
    unfold baseSucc at hsucc
    dsimp at hsucc
    split at hsucc
    . cases hsucc
    . next hbase =>
      cases hsucc
      have hnext := (view.succ_ok h hbase).isNext
      refine ⟨?_, by simp⟩
      intro k hk
      exact hnext k hk.1
    . next baseKey baseData hbase =>
      have hbelow := view.succ_ok h hbase
      have hstored : view.contents base baseKey = some baseData := hbelow.entry _ rfl
      obtain ⟨_, hgt, hleast⟩ := hbelow.isNext
      have hfound : ∀ data, items.overlay (view.contents base) baseKey = some data →
          IsNext (LiveBelow (view.contents base) items) searchBase (some baseKey) := by
        intro data hdata
        refine ⟨⟨by simp [hstored], by simp [hdata]⟩, hgt, ?_⟩
        intro k hk
        exact hleast k hk.1
      cases hlookup : items.lookup baseKey with
      | none =>
        rw [hlookup] at hsucc
        cases hsucc
        have hoverlay := (overlay_of_lookup_none hlookup).trans hstored
        exact ⟨hfound _ hoverlay, by simpa using hoverlay⟩
      | some entry =>
        rw [hlookup] at hsucc
        dsimp at hsucc
        have hmem : baseKey ∈ items := AList.lookup_isSome.mp (by simp [hlookup])
        split at hsucc
        . next herase =>
          have herased : items.overlay (view.contents base) baseKey = none := by
            rw [overlay_of_lookup hlookup, live, if_pos herase]
          have hlength : (ahead.erase baseKey).length < fuel := by
            have hpos := length_pos_of_mem (hahead baseKey hmem hgt)
            rw [length_erase_of_mem (hahead baseKey hmem hgt)]
            omega
          have hrest := ih baseKey hinv (hcontents ▸ htracks) (ahead.erase baseKey) ?_ hlength hsucc
          . rw [show view.contents (LedgerView.succ searchBase base).2 = view.contents base
              from hcontents] at hrest
            refine ⟨?_, hrest.2⟩
            apply IsNext.skip hbelow.isNext (fun k hk => hk.1) _ hrest.1
            simp [LiveBelow, herased]
          intro k hk hlt
          apply (mem_erase_of_ne _).mpr
          . exact hahead k hk (Vector.lt_trans hgt hlt)
          rintro rfl
          exact Vector.lt_irrefl k hlt
        . next herase =>
          cases hsucc
          have hsome := (htracks baseKey entry hlookup).current herase
          obtain ⟨current, hcurrent⟩ := isSome_iff_exists.mp hsome
          have hoverlay : items.overlay (view.contents base) baseKey = some current := by
            rw [overlay_of_lookup hlookup, live, if_neg herase, hcurrent]
          exact ⟨hfound _ hoverlay, by simpa [hcurrent] using hoverlay⟩

theorem isSome_contents_iff (h : t.Inv view) (hcoh : t.Coherent view) (key : Hash256)
    : (t.contents view key).isSome
        ↔ key ∈ t.insertedKeys ∨ LiveBelow (view.contents t.base) t.items key := by
  unfold LiveBelow
  cases hlookup : t.items.lookup key with
  | none =>
    have hnot := hcoh.not_mem_inserted_of_lookup_none hlookup
    rw [contents_of_lookup_none hlookup, overlay_of_lookup_none hlookup]
    simp [hnot]
  | some entry =>
    have htracks := h.tracks key entry hlookup
    rw [contents_of_lookup hlookup, overlay_of_lookup hlookup,
      hcoh.mem_inserted_of_lookup hlookup]
    unfold live TrackedEntry.Introduced
    by_cases herase : entry.action = .erase
    . simp [herase]
    cases horiginal : entry.original with
    | none => simp [herase, htracks.current herase]
    | some original => simp [herase, htracks.current herase, htracks.original original horiginal]

-- The candidate of `Succ` among the keys that the table introduced
theorem inserted_isNext (h : t.Inv view) (hcoh : t.Coherent view) (key : Hash256)
    : IsNext (· ∈ t.insertedKeys) key
        (((t.insertedKeys.successor key).bind fun k =>
          (t.items.lookup k).bind fun entry => entry.current.map (k, ·)).map Prod.fst)
      ∧ ∀ e ∈ (t.insertedKeys.successor key).bind fun k =>
          (t.items.lookup k).bind fun entry => entry.current.map (k, ·),
        t.contents view e.1 = some e.2 := by
  have hnext := OrderedLedgerKeys.isNext_successor hcoh.sorted key
  cases hsucc : t.insertedKeys.successor key with
  | none =>
    rw [hsucc] at hnext
    exact ⟨hnext, by simp⟩
  | some k =>
    rw [hsucc] at hnext
    obtain ⟨entry, hlookup, hintro⟩ := (hcoh.mem_inserted k).mp hnext.1
    have hsome := (h.tracks k entry hlookup).current hintro.2
    obtain ⟨current, hcurrent⟩ := isSome_iff_exists.mp hsome
    have hlive : t.contents view k = some current := by
      rw [contents_of_lookup hlookup, live, if_neg hintro.2, hcurrent]
    simpa [hlookup, hcurrent, hlive] using hnext

theorem succ_ok {next : Option (Hash256 × Blob)} (h : t.Inv view)
    (hcoh : t.Coherent view) (hsucc : (t.succ key).1 = .ok next)
    : (t.contents view).IsSucc key next := by
  obtain ⟨hinserted, hentry⟩ := inserted_isNext h hcoh key
  unfold succ at hsucc
  dsimp at hsucc
  generalize (t.insertedKeys.successor key).bind (fun k =>
    (t.items.lookup k).bind fun entry => entry.current.map (k, ·)) = best at *
  have hfuel : t.items.keys.length < t.items.keys.length + 1 := by omega
  have hbelow : ∀ {next}, (baseSucc t.items (t.items.keys.length + 1) key t.base).1 = .ok next → _ :=
    fun hbase => baseSucc_ok (t.items.keys.length + 1) key h.base h.tracks t.items.keys
      (fun k hk _ => AList.mem_keys.mp hk) hfuel hbase
  have hlive := isSome_contents_iff h hcoh
  split at hsucc
  . cases hsucc
  . next hbase =>
    cases hsucc
    exact ⟨(hinserted.or_right (hbelow hbase).1).congr hlive, hentry⟩
  . next baseKey baseData hbase =>
    obtain ⟨hnext, hbaseEntry⟩ := hbelow hbase
    split at hsucc
    . cases hsucc
      exact ⟨(hnext.or_right hinserted).or_comm.congr hlive, hbaseEntry⟩
    . next bestKey bestData =>
      split at hsucc
      . next hlt =>
        cases hsucc
        have hle : ¬ bestKey < baseKey := Vector.lt_asymm hlt
        exact ⟨(hnext.or_of_le hinserted hle).or_comm.congr hlive, hbaseEntry⟩
      . next hnlt =>
        cases hsucc
        exact ⟨(hinserted.or_of_le hnext hnlt).congr hlive, hentry⟩

theorem query_moved (h : t.Inv view) (q : Query)
    : Moved view t (LedgerView.query q t).2 True (t.contents view) := by
  cases q with
  | read k => exact read_moved h k
  | has k => exact has_moved h k
  | txExists txID => exact Moved.query h (.txExists txID)
  | forEach =>
    change Moved view t t.forEach.2 True _
    unfold forEach
    dsimp
    split <;> exact Moved.query h .forEach
  | succ key =>
    change Moved view t (t.succ key).2 True _
    obtain ⟨hinv, hsame⟩ := baseSucc_keeps t.items (t.items.keys.length + 1) key h.base
    have hmoved : Moved view t
        { t with base := (baseSucc t.items (t.items.keys.length + 1) key t.base).2 } True
        (t.contents view) := .rebase h hinv hsame
    unfold succ
    dsimp
    split
    . exact hmoved
    . exact hmoved
    split
    . exact hmoved
    . split <;> exact hmoved

structure ViewInv (view : MapView Blob σ) (t : ApplyStateTable Blob σ) : Prop where
  inv : t.Inv view
  coherent : t.Coherent view
  owners : t.threadOnlyOwners = ∅

theorem ViewInv.moved (h : t.ViewInv view) (hmoved : Moved view t t' fits m') (hfits : fits)
    : t'.ViewInv view where
  inv := hmoved.inv
  coherent := hmoved.coherent h.coherent hfits
  owners := hmoved.owners.trans h.owners

theorem query_drops (q : Query) (t : ApplyStateTable Blob σ)
    : (LedgerView.query q t).2.drops = t.drops := by
  cases q with
  | read k =>
    change (t.read k).2.drops = t.drops
    unfold read
    split
    . split
      . rfl
      . split <;> rfl
    dsimp only
    split
    . rfl
    . rfl
    . split <;> rfl
  | has k =>
    change (t.has k).2.drops = t.drops
    unfold has
    split <;> rfl
  | txExists txID => rfl
  | forEach =>
    change t.forEach.2.drops = t.drops
    unfold forEach
    dsimp only
    split <;> rfl
  | succ key =>
    change (t.succ key).2.drops = t.drops
    unfold succ
    dsimp only
    split
    . rfl
    . rfl
    split
    . rfl
    . split <;> rfl

theorem contents_applyAtomically (h : t.ViewInv view)
    (huntyped : ∀ w ∈ ws, w.Untyped) (hok : (t.applyAtomically (Writer.ofList ws)).1 = none)
    : (t.applyAtomically (Writer.ofList ws)).2.contents view
        = Write.applyAll ws (t.contents view) := by
  rcases applyAtomically_moved h.inv (Writer.ofList ws) with ⟨_, herr, _⟩ | ⟨_, hmoved⟩
  . rw [hok] at herr
    cases herr
  have hcontents := hmoved.contents h.coherent (Writer.fits_ofList huntyped (contents view) t)
  rwa [Writer.successes_ofList (applyAtomically_ok hok).1] at hcontents

theorem contents_applyAtomically_error (h : t.ViewInv view)
    (herr : (t.applyAtomically body).1 = some err)
    : (t.applyAtomically body).2.contents view = t.contents view := by
  rcases applyAtomically_moved h.inv body with ⟨_, _, hmoved⟩ | ⟨hok, _⟩
  . exact hmoved.contents h.coherent trivial
  rw [hok] at herr
  cases herr

def mapView (view : MapView Blob σ) : MapView Blob (ApplyStateTable Blob σ) where
  contents := contents view
  dropsDestroyed := drops
  Inv := ViewInv view
  query_inv q h := h.moved (query_moved h.inv q) trivial
  query_contents q h := (query_moved h.inv q).contents h.coherent trivial
  query_drops q _ := query_drops q _
  read_ok h hread := read_ok h.inv hread
  has_ok h hfits hhas := has_ok h.inv hfits hhas
  succ_ok h hsucc := succ_ok h.inv h.coherent hsucc
  forEach_ok h hforEach := forEach_ok h.inv hforEach
  atomically_inv := by
    intro t body h huntyped
    rcases applyAtomically_moved h.inv body with ⟨_, _, hmoved⟩ | ⟨_, hmoved⟩
    . exact h.moved hmoved trivial
    . exact h.moved hmoved (Writer.Fits.of_all_untyped huntyped (contents view) t)
  atomically_ok h huntyped hok := contents_applyAtomically h huntyped hok
  atomically_drops := by
    intro t ws _ _ hok
    obtain ⟨hrun, heq⟩ := applyAtomically_ok hok
    change (t.applyAtomically (Writer.ofList ws)).2.drops = _
    rw [heq]
    exact Writer.drops_run_ofList (fun w s _ => write_drops w s) hrun
  atomically_fresh h huntyped hok := run_fresh h.inv h.coherent huntyped (applyAtomically_ok hok).1
  atomically_error := by
    intro t body err h _ herr
    refine ⟨contents_applyAtomically_error h herr, ?_⟩
    change (t.applyAtomically body).2.drops = t.drops
    rw [applyAtomically_error body herr]
  atomically_fails := by
    intro t body _ hfails
    change (t.applyAtomically body).1 ≠ none
    rw [applyAtomically_fst]
    exact Writer.run_ne_none_of_fails hfails t

variable (hreliable : view.Reliable)

include hreliable

theorem exists_read_ok (h : t.Inv view) (k : Keylet) : ∃ data, (t.read k).1 = .ok data := by
  unfold read
  obtain ⟨data, hdata⟩ := hreliable.read k h.base
  cases t.items.lookup k.key with
  | some entry =>
    dsimp
    split
    . exact ⟨_, rfl⟩
    . split <;> exact ⟨_, rfl⟩
  | none =>
    dsimp
    rw [hdata]
    cases data with
    | none => exact ⟨_, rfl⟩
    | some data =>
      dsimp
      split <;> exact ⟨_, rfl⟩

theorem exists_has_ok (h : t.Inv view) (k : Keylet) : ∃ found, (t.has k).1 = .ok found := by
  unfold has
  cases t.items.lookup k.key with
  | some entry => exact ⟨_, rfl⟩
  | none => exact hreliable.has k h.base

theorem exists_forEach_ok (h : t.Inv view) : ∃ entries, t.forEach.1 = .ok entries := by
  obtain ⟨entries, hentries⟩ := hreliable.forEach h.base
  unfold forEach
  dsimp
  rw [hentries]
  exact ⟨_, rfl⟩

theorem exists_baseSucc_ok (items : Items Blob) (fuel : Nat)
    (searchBase : Hash256) (h : view.Inv base)
    : ∃ next, (baseSucc items fuel searchBase base).1 = .ok next := by
  induction fuel generalizing searchBase base with
  | zero => exact ⟨_, rfl⟩
  | succ fuel ih =>
    obtain ⟨next, hnext⟩ := hreliable.succ searchBase h
    unfold baseSucc
    dsimp
    rw [hnext]
    cases next with
    | none => exact ⟨_, rfl⟩
    | some e =>
      dsimp
      split
      . exact ⟨_, rfl⟩
      split
      . exact ih _ (view.query_inv (.succ searchBase) h)
      . exact ⟨_, rfl⟩

theorem exists_succ_ok (h : t.Inv view) (key : Hash256) : ∃ next, (t.succ key).1 = .ok next := by
  obtain ⟨next, hnext⟩ := exists_baseSucc_ok hreliable t.items (t.items.keys.length + 1) key h.base
  unfold succ
  dsimp
  rw [hnext]
  cases next with
  | none => exact ⟨_, rfl⟩
  | some e =>
    dsimp
    split
    . exact ⟨_, rfl⟩
    . split <;> exact ⟨_, rfl⟩

theorem reliable_mapView : (mapView view).Reliable where
  read := fun k h => exists_read_ok hreliable h.inv k
  has := fun k h => exists_has_ok hreliable h.inv k
  succ := fun key h => exists_succ_ok hreliable h.inv key
  forEach := fun h => exists_forEach_ok hreliable h.inv

end ApplyStateTable

end ApplyState
