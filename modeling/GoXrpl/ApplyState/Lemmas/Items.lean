import GoXrpl.ApplyState.Impl.Table
import GoXrpl.Assoc.Basic
import GoXrpl.State.Contents
import GoXrpl.State.Lemmas.OrderedKeys

open AList Function State.OrderedLedgerKeys

namespace ApplyState

open State

variable {Blob : Type}

namespace TrackedEntry

def live (e : TrackedEntry Blob) : Option Blob :=
  if e.action = .erase then none else e.current

structure Tracks (stored : Option Blob) (e : TrackedEntry Blob) : Prop where
  original : ∀ data, e.original = some data → stored = some data
  current : e.action ≠ .erase → e.current.isSome
  cache : e.action = .cache → e.original = e.current
  insert : e.action = .insert → e.original = none

theorem Tracks.live_of_cache {e : TrackedEntry Blob} (h : e.Tracks stored)
    (haction : e.action = .cache)
    : e.live = stored := by
  obtain ⟨data, hdata⟩ := Option.isSome_iff_exists.mp (h.current (by rw [haction]; decide))
  rw [h.original data ((h.cache haction).trans hdata), live, haction, hdata]
  rfl

-- The entry was not in the view below, and it is in the table.
def Introduced (e : TrackedEntry Blob) : Prop :=
  e.original = none ∧ e.action ≠ .erase

end TrackedEntry

namespace Items

variable {m : Contents Blob} {items : Items Blob}

def overlay (m : Contents Blob) (items : Items Blob) : Contents Blob := fun k =>
  (items.lookup k).elim (m k) TrackedEntry.live

def Tracks (m : Contents Blob) (items : Items Blob) : Prop :=
  ∀ k e, items.lookup k = some e → e.Tracks (m k)

structure Coherent (m : Contents Blob) (items : Items Blob) (inserted : OrderedLedgerKeys)
    : Prop where
  fresh : ∀ k e, items.lookup k = some e → e.original = none → m k = none
  mem_inserted : ∀ k, k ∈ inserted ↔ ∃ e, items.lookup k = some e ∧ e.Introduced
  sorted : inserted.Pairwise (· < ·)

theorem overlay_of_lookup (h : items.lookup k = some e) : overlay m items k = e.live := by
  unfold overlay
  rw [h]
  rfl

theorem overlay_of_lookup_none (h : items.lookup k = none) : overlay m items k = m k := by
  unfold overlay
  rw [h]
  rfl

@[simp]
theorem overlay_empty (m : Contents Blob) : overlay m (∅ : Items Blob) = m := by
  funext k
  exact overlay_of_lookup_none (lookup_empty k)

theorem overlay_insert (m : Contents Blob) (items : Items Blob) (k : Hash256) (e : TrackedEntry Blob)
    : overlay m (items.insert k e) = update (overlay m items) k e.live := by
  funext k'
  unfold overlay
  by_cases h : k' = k
  . subst h
    rw [lookup_insert, update_self]
    rfl
  . rw [lookup_insert_ne h, update_of_ne h]

theorem overlay_insert_of_live (h : overlay m items k = e.live)
    : overlay m (items.insert k e) = overlay m items := by
  rw [overlay_insert, ← h, update_eq_self]

theorem overlay_erase (h : m k = none)
    : overlay m (items.erase k) = update (overlay m items) k none := by
  funext k'
  unfold overlay
  by_cases hk : k' = k
  . subst hk
    rw [lookup_erase, update_self]
    exact h
  . rw [lookup_erase_ne hk, update_of_ne hk]

theorem overlay_eq_of_filter (h : Tracks m items)
    : overlay m items k = ((items.lookup k).filter (·.action ≠ .cache)).elim (m k) TrackedEntry.live := by
  unfold overlay
  cases hlookup : items.lookup k with
  | none => rfl
  | some e =>
    have htracks := h k e hlookup
    by_cases haction : e.action = .cache
    . simp [Option.filter_some, haction, htracks.live_of_cache haction]
    . simp [Option.filter_some, haction]

theorem tracks_empty (m : Contents Blob) : Tracks m (∅ : Items Blob) := by
  intro k e h
  simp at h

theorem Tracks.insert (h : Tracks m items) (he : e.Tracks (m k)) : Tracks m (items.insert k e) := by
  intro k' e' hlookup
  rcases Assoc.lookup_insert_cases hlookup with ⟨rfl, rfl⟩ | hlookup
  . exact he
  . exact h k' e' hlookup

theorem Tracks.erase (h : Tracks m items) (k : Hash256) : Tracks m (items.erase k) := by
  intro k' e' hlookup
  by_cases hk : k' = k
  . subst hk
    rw [lookup_erase] at hlookup
    cases hlookup
  rw [lookup_erase_ne hk] at hlookup
  exact h k' e' hlookup

theorem coherent_empty (m : Contents Blob) : Coherent m (∅ : Items Blob) [] where
  fresh := by
    intro k e h
    simp at h
  mem_inserted := by simp
  sorted := List.Pairwise.nil

variable (h : Coherent m items inserted)

include h

theorem Coherent.insert (he : e.original = none → m k = none)
    (hsorted : inserted'.Pairwise (· < ·)) (hk : k ∈ inserted' ↔ e.Introduced)
    (hother : ∀ k', k' ≠ k → (k' ∈ inserted' ↔ k' ∈ inserted))
    : Coherent m (items.insert k e) inserted' where
  fresh := by
    intro k' e' hlookup
    rcases Assoc.lookup_insert_cases hlookup with ⟨rfl, rfl⟩ | hlookup
    . exact he
    . exact h.fresh k' e' hlookup
  mem_inserted := by
    intro k'
    by_cases heq : k' = k
    . subst heq
      rw [lookup_insert, hk]
      simp
    rw [lookup_insert_ne heq, hother k' heq]
    exact h.mem_inserted k'
  sorted := hsorted

theorem Coherent.erase (k : Hash256) : Coherent m (items.erase k) (inserted.remove k) where
  fresh := by
    intro k' e' hlookup
    by_cases heq : k' = k
    . subst heq
      rw [lookup_erase] at hlookup
      cases hlookup
    rw [lookup_erase_ne heq] at hlookup
    exact h.fresh k' e' hlookup
  mem_inserted := by
    intro k'
    rw [mem_remove h.sorted]
    by_cases heq : k' = k
    . subst heq
      simp [lookup_erase]
    rw [lookup_erase_ne heq, ← h.mem_inserted]
    simp [heq]
  sorted := pairwise_remove h.sorted

theorem Coherent.not_mem_inserted_of_lookup_none (hlookup : items.lookup k = none)
    : k ∉ inserted := by
  rw [h.mem_inserted]
  simp [hlookup]

theorem Coherent.mem_inserted_of_lookup (hlookup : items.lookup k = some e)
    : k ∈ inserted ↔ e.Introduced := by
  rw [h.mem_inserted]
  simp [hlookup]

theorem Coherent.insert_add (hm : m k = none) (hintro : e.Introduced)
    : Coherent m (items.insert k e) (inserted.add k) := by
  apply h.insert
  . exact fun _ => hm
  . exact pairwise_add h.sorted
  . simp [mem_add, hintro]
  intro k' hne
  simp [mem_add, hne]

theorem Coherent.insert_remove (hm : e.original = none → m k = none) (hintro : ¬ e.Introduced)
    : Coherent m (items.insert k e) (inserted.remove k) := by
  apply h.insert
  . exact hm
  . exact pairwise_remove h.sorted
  . simp [mem_remove h.sorted, hintro]
  intro k' hne
  simp [mem_remove h.sorted, hne]

theorem Coherent.insert_keep (hm : e.original = none → m k = none)
    (hintro : k ∈ inserted ↔ e.Introduced)
    : Coherent m (items.insert k e) inserted := by
  apply h.insert
  . exact hm
  . exact h.sorted
  . exact hintro
  . exact fun _ _ => Iff.rfl

theorem Coherent.remove_of_not_introduced (hk : k ∉ inserted)
    : Coherent m items (inserted.remove k) where
  fresh := h.fresh
  mem_inserted := by
    intro k'
    rw [mem_remove h.sorted, ← h.mem_inserted]
    constructor
    . exact fun h => h.2
    intro hmem
    refine ⟨?_, hmem⟩
    rintro rfl
    exact hk hmem
  sorted := pairwise_remove h.sorted

end Items

end ApplyState
