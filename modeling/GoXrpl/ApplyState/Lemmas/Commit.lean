import GoXrpl.ApplyState.Impl.Commit
import GoXrpl.ApplyState.Lemmas.Query

open List Option State.Write

namespace ApplyState

open State

variable {Blob σ : Type}

namespace ApplyStateTable

variable {t : ApplyStateTable Blob σ}

theorem lookup_eq_none_of_not_mem {V : Type} {entries : AList fun _ : Hash256 => V}
    (h : k ∉ sortLedgerKeys entries.keys)
    : entries.lookup k = none := by
  rw [AList.lookup_eq_none, AList.mem_keys]
  exact fun hk => h (mem_sortLedgerKeys.mpr hk)

theorem applyAll_filterMap {keys : List Hash256} (hnodup : keys.Nodup)
    (hf : ∀ k w, f k = some w → w.key = some k) (m : Contents Blob) (hk : k ∉ keys → f k = none)
    : Write.applyAll (keys.filterMap f) m k = (f k).elim (m k) (fun w => Write.apply m w k) := by
  induction keys generalizing m with
  | nil =>
    rw [hk not_mem_nil]
    rfl
  | cons key keys ih =>
    obtain ⟨hnot, hnodup⟩ := nodup_cons.mp hnodup
    rw [filterMap_cons]
    by_cases heq : k = key
    . subst heq
      have hrest : ∀ w ∈ keys.filterMap f, w.key ≠ some k := by
        intro w hw hkey
        obtain ⟨key', hmem, hfkey⟩ := mem_filterMap.mp hw
        have := hf key' w hfkey
        rw [hkey] at this
        cases this
        exact hnot hmem
      cases hfk : f k with
      | none => exact Write.applyAll_of_key_ne hrest m
      | some w =>
        dsimp
        rw [Write.applyAll_of_key_ne hrest]
    have hk' : k ∉ keys → f k = none := fun hnot => hk (not_mem_cons_of_ne_of_not_mem heq hnot)
    cases hfkey : f key with
    | none => exact ih hnodup m hk'
    | some w =>
      have hwkey : w.key ≠ some k := by
        rw [hf key w hfkey]
        intro h
        exact heq (some.inj h).symm
      dsimp
      rw [ih hnodup _ hk', Write.apply_of_key_ne hwkey m]
      cases hfk : f k with
      | none => rfl
      | some w' =>
        have hkey' := hf k w' hfk
        cases w' <;> cases hkey' <;> simp [Write.apply]

theorem fresh_filterMap {keys : List Hash256} (hnodup : keys.Nodup)
    (hf : ∀ k w, f k = some w → w.key = some k)
    (hfresh : Write.InsertsFresh (keys.filterMap f ++ ws) m) (hk : k ∈ keys)
    {data : Blob} (hwrite : f k = some (.insert k' data))
    : m k = none := by
  induction keys generalizing m with
  | nil => cases hk
  | cons key keys ih =>
    obtain ⟨hnot, hnodup⟩ := nodup_cons.mp hnodup
    rcases mem_cons.mp hk with rfl | hmem
    . rw [filterMap_cons, hwrite] at hfresh
      have hkey : k'.key = k := some.inj (hf k _ hwrite)
      rw [← hkey]
      exact hfresh.1
    rw [filterMap_cons] at hfresh
    cases hfkey : f key with
    | none =>
      rw [hfkey] at hfresh
      exact ih hnodup hfresh hmem
    | some w =>
      rw [hfkey] at hfresh
      have hne : w.key ≠ some k := by
        rw [hf key w hfkey]
        intro heq
        cases heq
        exact hnot hmem
      rw [← apply_of_key_ne hne m]
      exact ih hnodup hfresh.2 hmem

theorem key_of_ownerWrite (h : t.ownerWrite k = some w)
    : w.key = some k ∧ w.Untyped := by
  obtain ⟨owner, hlookup, rfl⟩ := map_eq_some_iff.mp h
  exact ⟨rfl, rfl⟩

variable [DecidableEq Blob]

theorem key_of_itemWrite (h : t.itemWrite k = some w)
    : w.key = some k ∧ w.Untyped := by
  obtain ⟨entry, hlookup, hwrite⟩ := bind_eq_some_iff.mp h
  split at hwrite
  . cases hwrite
    exact ⟨rfl, rfl⟩
  . split at hwrite
    . cases hwrite
    cases hwrite
    exact ⟨rfl, rfl⟩
  . cases hwrite
    exact ⟨rfl, rfl⟩
  . cases hwrite

theorem untyped_commitWrites (t : ApplyStateTable Blob σ) : ∀ w ∈ t.commitWrites, w.Untyped := by
  intro w hw
  rcases mem_append.mp hw with hw | hw
  . rcases mem_append.mp hw with hw | hw
    . obtain ⟨k, _, hk⟩ := mem_filterMap.mp hw
      exact (key_of_itemWrite hk).2
    obtain ⟨k, _, hk⟩ := mem_filterMap.mp hw
    exact (key_of_ownerWrite hk).2
  split at hw
  . rw [mem_singleton] at hw
    subst hw
    trivial
  . cases hw

theorem elim_itemWrite (htracks : t.items.Tracks m) (k : Hash256)
    : (t.itemWrite k).elim (m k) (fun w => Write.apply m w k) = t.items.overlay m k := by
  unfold itemWrite
  cases hlookup : t.items.lookup k with
  | none => exact (Items.overlay_of_lookup_none hlookup).symm
  | some entry =>
    have htracked := htracks k entry hlookup
    rw [Items.overlay_of_lookup hlookup]
    unfold TrackedEntry.live
    by_cases herase : entry.action = .erase
    . simp [herase, Write.apply, Keylet.ofKey]
    obtain ⟨current, hcurrent⟩ := isSome_iff_exists.mp (htracked.current herase)
    -- what is not written is stored below already
    have hsame : entry.original = entry.current → m k = entry.current := by
      intro hsame
      rw [hcurrent] at hsame ⊢
      exact htracked.original current hsame
    rw [if_neg herase, hcurrent]
    cases haction : entry.action with
    | cache => simpa [haction, hcurrent] using hsame (htracked.cache haction)
    | insert => simp [haction, hcurrent, Write.apply, Keylet.ofKey]
    | modify =>
      by_cases horiginal : entry.original = entry.current
      . simpa [haction, hcurrent, horiginal] using hsame horiginal
      . simp [haction, hcurrent, hcurrent ▸ horiginal, Write.apply, Keylet.ofKey]
    | erase => exact absurd haction herase

theorem applyAll_items (htracks : t.items.Tracks m)
    : applyAll (t.sortedItems.filterMap t.itemWrite) m = t.items.overlay m := by
  funext k
  have hnodup : t.sortedItems.Nodup := (perm_sortLedgerKeys _).nodup_iff.mpr t.items.keys_nodup
  rw [applyAll_filterMap hnodup fun k w h => (key_of_itemWrite h).1]
  . exact elim_itemWrite htracks k
  intro hk
  unfold itemWrite
  rw [lookup_eq_none_of_not_mem hk]
  rfl

theorem applyAll_commitWrites (htracks : t.items.Tracks m) (k : Hash256)
    : applyAll t.commitWrites m k
        = (t.threadOnlyOwners.lookup k).elim (t.items.overlay m k) (some ·.updated) := by
  have hdrops : ∀ m' : Contents Blob, applyAll
      (if t.drops > 0 then [Write.adjustDropsDestroyed t.drops] else []) m' = m' := by
    intro m'
    split <;> rfl
  have hnodup : t.sortedOwners.Nodup :=
    (perm_sortLedgerKeys _).nodup_iff.mpr t.threadOnlyOwners.keys_nodup
  unfold commitWrites
  rw [applyAll_append, hdrops, applyAll_append, applyAll_items htracks]
  rw [applyAll_filterMap hnodup fun k w h => (key_of_ownerWrite h).1]
  . unfold ownerWrite
    cases t.threadOnlyOwners.lookup k with
    | none => rfl
    | some owner => simp [Write.apply, Keylet.ofKey]
  intro hk
  unfold ownerWrite
  rw [lookup_eq_none_of_not_mem hk]
  rfl

theorem applyAllDrops_commitWrites (t : ApplyStateTable Blob σ) (drops : Int64)
    : applyAllDrops t.commitWrites drops = if t.drops > 0 then drops + t.drops else drops := by
  have hwrites : ∀ (ws : List (Write Blob)), (∀ w ∈ ws, w.key ≠ none) →
      applyAllDrops ws drops = drops := by
    intro ws
    induction ws with
    | nil => exact fun _ => rfl
    | cons w ws ih =>
      intro hws
      have hrest := ih fun w' hw' => hws w' (mem_cons_of_mem _ hw')
      cases w with
      | adjustDropsDestroyed amount => exact absurd rfl (hws _ mem_cons_self)
      | insert k data => exact hrest
      | update k data => exact hrest
      | erase k => exact hrest
  have hkeyed : ∀ w ∈ t.sortedItems.filterMap t.itemWrite ++ t.sortedOwners.filterMap t.ownerWrite,
      w.key ≠ none := by
    intro w hw
    rcases mem_append.mp hw with hw | hw
    . obtain ⟨k, _, hk⟩ := mem_filterMap.mp hw
      rw [(key_of_itemWrite hk).1]
      exact some_ne_none k
    obtain ⟨k, _, hk⟩ := mem_filterMap.mp hw
    rw [(key_of_ownerWrite hk).1]
    exact some_ne_none k
  have hitems := hwrites _ hkeyed
  unfold commitWrites
  unfold applyAllDrops at hitems ⊢
  rw [foldl_append, hitems]
  split <;> rfl

theorem fresh_commitWrites (hfresh : Write.InsertsFresh t.commitWrites m)
    (hk : k ∈ t.sortedItems) {data : Blob} (hwrite : t.itemWrite k = some (.insert (.ofKey k) data))
    : m k = none := by
  have hnodup : t.sortedItems.Nodup := (perm_sortLedgerKeys _).nodup_iff.mpr t.items.keys_nodup
  unfold commitWrites at hfresh
  rw [append_assoc] at hfresh
  exact fresh_filterMap hnodup (fun k w h => (key_of_itemWrite h).1) hfresh hk hwrite

end ApplyStateTable

end ApplyState
