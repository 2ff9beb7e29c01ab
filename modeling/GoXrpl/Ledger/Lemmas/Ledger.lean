import GoXrpl.Ledger.Impl.Ledger
import GoXrpl.State.Contents
import GoXrpl.State.Lemmas.OrderedKeys

open AList Function

section

open State Search

namespace Ledger

variable {Blob : Type} {l : Ledger Blob}

def contents (l : Ledger Blob) : Contents Blob := fun k => l.stateMap.lookup k

-- A ledger with the given entries, whose store answers every access
def ofEntries (entries : List (Hash256 × Blob)) : Ledger Blob where
  stateMap := entries.foldr (fun e m => m.insert e.1 e.2) ∅
  txMap := []
  dropsDestroyed := 0
  writable := true
  faults := fun _ => none
  accesses := 0

theorem lookup_insert_eq_update (entries : AList (fun _ : Hash256 => Blob)) (key : Hash256)
    (data : Blob)
    : (fun k => (entries.insert key data).lookup k)
        = Function.update (fun k => entries.lookup k) key (some data) := by
  funext k
  by_cases h : k = key
  . subst h
    rw [lookup_insert, update_self]
  . rw [lookup_insert_ne h, update_of_ne h]

theorem lookup_erase_eq_update (entries : AList (fun _ : Hash256 => Blob)) (key : Hash256)
    : (fun k => (entries.erase key).lookup k)
        = Function.update (fun k => entries.lookup k) key none := by
  funext k
  by_cases h : k = key
  . subst h
    rw [lookup_erase, update_self]
  . rw [lookup_erase_ne h, update_of_ne h]

theorem mutate_faults (l : Ledger Blob)
    : (l.mutate k present otherwise change).2.faults = l.faults := by
  unfold mutate access
  dsimp
  split
  . rfl
  split
  . rfl
  split
  . rfl
  . split <;> rfl

theorem mutate_stateMap (hok : (l.mutate k present otherwise change).1 = none)
    : (l.mutate k present otherwise change).2.stateMap = change l.stateMap := by
  unfold mutate access at hok ⊢
  dsimp at hok ⊢
  split at hok
  . cases hok
  . next hwritable =>
    rw [if_neg hwritable]
    split at hok
    . cases hok
    . next hfound =>
      split at hok
      . cases hok
      . next hpresent =>
        rw [if_neg hpresent]
        split at hok
        . cases hok
        . rfl

theorem mutate_dropsDestroyed (l : Ledger Blob)
    : (l.mutate k present otherwise change).2.dropsDestroyed = l.dropsDestroyed := by
  unfold mutate access
  dsimp
  split
  . rfl
  split
  . rfl
  split
  . rfl
  . split <;> rfl

theorem mutate_present (hok : (l.mutate k present otherwise change).1 = none)
    : (l.stateMap.lookup k.key).isSome = present := by
  unfold mutate access at hok
  dsimp at hok
  split at hok
  . cases hok
  split at hok
  . cases hok
  split at hok
  . cases hok
  . next hpresent => exact not_not.mp hpresent

theorem write_faults (w : Write Blob) (l : Ledger Blob) : (write w l).2.faults = l.faults := by
  cases w with
  | insert k data => exact mutate_faults l
  | update k data => exact mutate_faults l
  | erase k => exact mutate_faults l
  | adjustDropsDestroyed drops =>
    change (l.adjustDropsDestroyed drops).2.faults = l.faults
    unfold adjustDropsDestroyed
    split <;> rfl

theorem contents_write (w : Write Blob) (l : Ledger Blob) (hok : (write w l).1 = none)
    : (write w l).2.contents = w.apply l.contents := by
  unfold contents
  cases w with
  | insert k data =>
    rw [show (write (.insert k data) l).2.stateMap = _ from mutate_stateMap hok]
    exact lookup_insert_eq_update _ _ _
  | update k data =>
    rw [show (write (.update k data) l).2.stateMap = _ from mutate_stateMap hok]
    exact lookup_insert_eq_update _ _ _
  | erase k =>
    rw [show (write (.erase k) l).2.stateMap = _ from mutate_stateMap hok]
    exact lookup_erase_eq_update _ _
  | adjustDropsDestroyed drops =>
    change (fun k => (l.adjustDropsDestroyed drops).2.stateMap.lookup k) = l.contents
    unfold adjustDropsDestroyed
    split <;> rfl

theorem dropsDestroyed_write (w : Write Blob) (l : Ledger Blob) (hok : (write w l).1 = none)
    : (write w l).2.dropsDestroyed = w.applyDrops l.dropsDestroyed := by
  cases w with
  | insert k data => exact mutate_dropsDestroyed l
  | update k data => exact mutate_dropsDestroyed l
  | erase k => exact mutate_dropsDestroyed l
  | adjustDropsDestroyed amount =>
    change (l.adjustDropsDestroyed amount).1 = none at hok
    change (l.adjustDropsDestroyed amount).2.dropsDestroyed = l.dropsDestroyed + amount
    unfold adjustDropsDestroyed at hok ⊢
    split at hok
    . cases hok
    . next hwritable => rw [if_neg hwritable]

theorem fresh_write (hok : (write w l).1 = none) : w.Fresh l.contents := by
  cases w with
  | insert k data =>
    have habsent : (l.stateMap.lookup k.key).isSome = false := mutate_present hok
    exact Option.isSome_eq_false_iff.mp habsent |> Option.isNone_iff_eq_none.mp
  | update k data => trivial
  | erase k => trivial
  | adjustDropsDestroyed amount => trivial

theorem run_faults (body : Writer Blob) (l : Ledger Blob)
    : (body.run write l).2.faults = l.faults := by
  have hstep : ∀ w (l' : Ledger Blob), l'.faults = l.faults → (write w l').2.faults = l.faults := by
    intro w l' h
    rw [write_faults, h]
  exact Writer.run_induction (P := fun l' : Ledger Blob => l'.faults = l.faults) hstep body rfl

theorem applyAtomically_faults (body : Writer Blob) (l : Ledger Blob)
    : (l.applyAtomically body).2.faults = l.faults := by
  simp only [applyAtomically, access]
  split
  . rfl
  split
  . rfl
  split
  . rfl
  . rw [run_faults]

theorem applyAtomically_ok (hok : (l.applyAtomically body).1 = none)
    : (body.run write l.access.2).1 = none
        ∧ (l.applyAtomically body).2 = (body.run write l.access.2).2 := by
  unfold applyAtomically at hok ⊢
  dsimp only at hok ⊢
  split at hok
  . cases hok
  . next hwritable =>
    rw [if_neg hwritable]
    split at hok
    . cases hok
    split at hok
    . cases hok
    . next hrun => exact ⟨hrun, rfl⟩

theorem applyAtomically_error (herr : (l.applyAtomically body).1 = some err)
    : (l.applyAtomically body).2.contents = l.contents
        ∧ (l.applyAtomically body).2.dropsDestroyed = l.dropsDestroyed := by
  unfold applyAtomically at herr ⊢
  dsimp only at herr ⊢
  split at herr
  . next hwritable =>
    rw [if_pos hwritable]
    exact ⟨rfl, rfl⟩
  . next hwritable =>
    rw [if_neg hwritable]
    split at herr
    . exact ⟨rfl, rfl⟩
    split at herr
    . exact ⟨rfl, rfl⟩
    . cases herr

theorem insertsFresh_run (hok : ((Writer.ofList ws).run write l).1 = none)
    : Write.InsertsFresh ws l.contents := by
  apply Writer.run_ofList_induction (P := fun ws l _ => Write.InsertsFresh ws (contents l)) _ _ hok
  . exact fun _ => trivial
  intro w ws l l' hw hrest
  rw [contents_write w l hw] at hrest
  exact ⟨fresh_write hw, hrest⟩

theorem isSucc_upperBound (l : Ledger Blob) (key : Hash256)
    : l.contents.IsSucc key (l.upperBound key) := by
  have hnext := isNext_find_sortLedgerKeys l.stateMap.keys key
  have hlive : ∀ k, (l.contents k).isSome = true ↔ k ∈ l.stateMap.keys := by
    intro k
    rw [← mem_keys]
    exact lookup_isSome
  unfold upperBound
  cases hfind : (sortLedgerKeys l.stateMap.keys).find? fun k => decide (key < k) with
  | none =>
    rw [hfind] at hnext
    exact ⟨hnext.congr hlive, by simp⟩
  | some k =>
    rw [hfind] at hnext
    obtain ⟨data, hdata⟩ := Option.isSome_iff_exists.mp ((hlive k).mpr hnext.1)
    have hlookup : l.stateMap.lookup k = some data := hdata
    constructor
    . simpa [hlookup] using hnext.congr hlive
    . simpa [hlookup] using hdata

theorem answer_ok (h : l.answer a = .ok b) : b = a := by
  unfold answer at h
  split at h
  . cases h
  cases h
  rfl

theorem answer_of_faults (h : l.faults = fun _ => none) (a : α) : l.answer a = .ok a := by
  simp [answer, access, h]

theorem enumerates_entries (l : Ledger Blob)
    : l.contents.Enumerates (l.stateMap.entries.map fun e => (e.1, e.2)) := by
  constructor
  . rw [List.map_map]
    exact l.stateMap.keys_nodup
  intro k data
  rw [List.mem_map]
  constructor
  . rintro ⟨e, he, heq⟩
    cases heq
    exact mem_lookup_iff.mpr he
  intro hdata
  exact ⟨⟨k, data⟩, mem_lookup_iff.mp hdata, rfl⟩

variable [Codec Blob]

def mapView (faults : Nat → Option Error) : MapView Blob (Ledger Blob) where
  contents := contents
  dropsDestroyed := dropsDestroyed
  Inv l := l.faults = faults
  query_inv := by
    intro l q h
    cases q <;> exact h
  query_contents := by
    intro l q h
    cases q <;> rfl
  query_drops := by
    intro l q h
    cases q <;> rfl
  read_ok _ hread := answer_ok hread
  has_ok _ _ hhas := answer_ok hhas
  succ_ok := by
    intro l key next _ hsucc
    rw [answer_ok hsucc]
    exact isSucc_upperBound l key
  forEach_ok := by
    intro l entries _ hforEach
    rw [answer_ok hforEach]
    exact enumerates_entries l
  atomically_inv h _ := (applyAtomically_faults _ _).trans h
  atomically_ok := by
    intro l ws _ _ hok
    obtain ⟨hrun, heq⟩ := applyAtomically_ok hok
    change (l.applyAtomically (Writer.ofList ws)).2.contents = _
    rw [heq]
    exact Writer.contents_run_ofList contents_write hrun
  atomically_drops := by
    intro l ws _ _ hok
    obtain ⟨hrun, heq⟩ := applyAtomically_ok hok
    change (l.applyAtomically (Writer.ofList ws)).2.dropsDestroyed = _
    rw [heq]
    exact Writer.drops_run_ofList dropsDestroyed_write hrun
  atomically_fresh := by
    intro l ws _ _ hok
    exact insertsFresh_run (l := l.access.2) (applyAtomically_ok hok).1
  atomically_error _ _ herr := applyAtomically_error herr
  atomically_fails _ hfails hok := Writer.run_ne_none_of_fails hfails _ (applyAtomically_ok hok).1

theorem reliable_mapView : (mapView (fun _ => none) : MapView Blob (Ledger Blob)).Reliable where
  read := fun _ h => ⟨_, answer_of_faults h _⟩
  has := fun _ h => ⟨_, answer_of_faults h _⟩
  succ := fun _ h => ⟨_, answer_of_faults h _⟩
  forEach := fun h => ⟨_, answer_of_faults h _⟩

end Ledger

end

section

open State

variable {Blob : Type} [Codec Blob]

theorem Ledger.writes_mapView (faults : Nat → Option Error)
    : (Ledger.mapView faults : MapView Blob (Ledger Blob)).Writes where
  inv h _ := (Ledger.write_faults _ _).trans h
  ok _ _ hok := Ledger.contents_write _ _ hok

end
