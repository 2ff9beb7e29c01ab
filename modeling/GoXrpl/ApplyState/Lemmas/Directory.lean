import GoXrpl.ApplyState.Lemmas.Program
import GoXrpl.State.Directory

open Function State.Contents
open Program.Prog (run_bind_done)

namespace ApplyState

open State Program
open Keylet (dirPage)

variable {Blob σ : Type} [Codec Blob] [Records Blob] [Sha512Half] [LedgerView Blob σ]

def IsPage (directory : Keylet) (k : Hash256) : Prop :=
  ∃ page, k = (dirPage directory.key page).key

namespace ApplyStateTable

structure Amid (view : MapView Blob σ) (directory : Keylet) (m₀ : Contents Blob)
    (lists : Hash256 → List Hash256) (m : Contents Blob) (t : ApplyStateTable Blob σ) : Prop where
  shows : At view m₀ m t
  kept : Contents.PagesKept (IsPage directory) m₀ m
  listed : m.listed = lists

variable {view : MapView Blob σ} {t t' : ApplyStateTable Blob σ} {m₀ m : Contents Blob}
variable {directory : Keylet}

namespace Amid

theorem read (h : Amid view directory m₀ lists m t)
    (hrun : ((Access.read k).mapError f).run step t = (.done data, t'))
    : Amid view directory m₀ lists m t' ∧ data = m.find k := by
  obtain ⟨hshows, hdata⟩ := h.shows.read (Prog.run_mapError_done.mp hrun)
  exact ⟨⟨hshows, h.kept, h.listed⟩, hdata⟩

theorem parse (hrun : (parseDirectoryNode data).run step t = (.done node, t'))
    (hdata : data = m.find (dirPage directory.key page))
    : t' = t ∧ m.Holds (dirPage directory.key page).key node := by
  obtain ⟨hnode, rfl⟩ := Prog.run_ofOption_done.mp hrun
  obtain ⟨data', hdata', hparse⟩ := Option.bind_eq_some_iff.mp hnode
  rw [hdata] at hdata'
  exact ⟨rfl, data', hdata', hparse⟩

theorem updateNode (h : Amid view directory m₀ lists m t) (hsurvive : m₀.PagesSurvive)
    (hbelow : m₀.Holds (dirPage directory.key page).key node₀)
    (hholds : m (dirPage directory.key page).key ≠ none →
      m.Holds (dirPage directory.key page).key node)
    (hedited : node.Edited node')
    (hrun : (State.updateNode (dirPage directory.key page) node').run step t = (.done u, t'))
    : ∃ m', Amid view directory m₀
        (Function.update lists (dirPage directory.key page).key node'.indexes) m' t'
      ∧ m.Holds (dirPage directory.key page).key node
      ∧ m'.Holds (dirPage directory.key page).key node'
      ∧ ∀ k, k ≠ (dirPage directory.key page).key → m' k = m k := by
  obtain ⟨data, t₁, hserialize, hupdate⟩ := run_bind_done hrun
  obtain ⟨hdata, rfl⟩ := Prog.run_ofOption_done.mp hserialize
  obtain ⟨hshows, hpresent⟩ := h.shows.update (h.kept.fits hbelow) hupdate
  have hholds := hholds (hpresent hbelow.ne_none)
  obtain ⟨hkept, hwritten⟩ := h.kept.write hsurvive ⟨page, rfl⟩ hholds hedited hdata
  refine ⟨_, ⟨hshows, hkept, ?_⟩, hholds, hwritten, fun k hk => update_of_ne hk _ _⟩
  rw [← h.listed, ← hwritten.listed]
  exact listed_update m _ _

theorem relink (h : Amid view directory m₀ lists m t) (hsurvive : m₀.PagesSurvive)
    (hbelow : m₀.Holds (dirPage directory.key page).key node₀)
    (hholds : m (dirPage directory.key page).key ≠ none →
      m.Holds (dirPage directory.key page).key node)
    (hedited : node.Edited node') (hindexes : node'.indexes = node.indexes)
    (hrun : (State.updateNode (dirPage directory.key page) node').run step t = (.done u, t'))
    : ∃ m', Amid view directory m₀ lists m' t' ∧ m'.Holds (dirPage directory.key page).key node'
      ∧ ∀ k, k ≠ (dirPage directory.key page).key → m' k = m k := by
  obtain ⟨m', h', hnode, hnode', hother⟩ := h.updateNode hsurvive hbelow hholds hedited hrun
  rw [hindexes, ← hnode.listed, h.listed, update_eq_self] at h'
  exact ⟨m', h', hnode', hother⟩

variable (h : Amid view directory m₀ lists m t)

include h

theorem erase (hbelow : m₀.Holds (dirPage directory.key page).key node₀)
    (hrun : (Access.erase (dirPage directory.key page)).run step t = (.done u, t'))
    : Amid view directory m₀ (Function.update lists (dirPage directory.key page).key [])
        (Function.update m (dirPage directory.key page).key none) t' := by
  refine ⟨h.shows.erase (h.kept.fits hbelow) hrun, h.kept.erase ⟨page, rfl⟩ hbelow, ?_⟩
  rw [← h.listed, listed_update, listed_erase]

theorem eraseEmpty (hbelow : m₀.Holds (dirPage directory.key page).key node₀)
    (hempty : lists (dirPage directory.key page).key = [])
    (hrun : (Access.erase (dirPage directory.key page)).run step t = (.done u, t'))
    : Amid view directory m₀ lists (Function.update m (dirPage directory.key page).key none) t' := by
  have herased := h.erase hbelow hrun
  rwa [← hempty, update_eq_self] at herased

theorem eraseRoot (hbelow : m₀.Holds (dirPage directory.key prevPage).key node₀)
    (hempty : prev.indexes = [] → lists (dirPage directory.key prevPage).key = [])
    (hrun : (removePage.eraseRoot keepRoot (dirPage directory.key prevPage) prev prevPage
      nextPage).run step t = (.done b, t'))
    : ∃ m', Amid view directory m₀ lists m' t' := by
  unfold removePage.eraseRoot at hrun
  split at hrun
  . next hcond =>
    obtain ⟨_, t₁, herase, hpure⟩ := run_bind_done hrun
    cases hpure
    exact ⟨_, h.eraseEmpty hbelow (hempty (List.isEmpty_iff.mp hcond.2.2.2)) herase⟩
  cases hrun
  exact ⟨m, h⟩

theorem finish (hsurvive : m₀.PagesSurvive)
    (hprevBelow : m₀.Holds (dirPage directory.key prevPage).key prev₀)
    (hnextBelow : m₀.Holds (dirPage directory.key nextPage).key next₀)
    (hprev : m (dirPage directory.key prevPage).key ≠ none →
      m.Holds (dirPage directory.key prevPage).key prev)
    (hnext : next.indexes = [] → m.listed (dirPage directory.key nextPage).key = [])
    (hrun : (removePage.finish directory keepRoot (dirPage directory.key prevPage)
      (dirPage directory.key nextPage) prev next prevPage nextPage).run step t = (.done b, t'))
    : ∃ m', Amid view directory m₀ lists m' t' := by
  unfold removePage.finish at hrun
  split at hrun
  . next hcond =>
    obtain ⟨_, t₁, herase, hrest₁⟩ := run_bind_done hrun
    have h₁ := h.eraseEmpty hnextBelow (h.listed ▸ hnext (List.isEmpty_iff.mp hcond.2.2)) herase
    -- the page before it is another one, as it can still be written
    obtain ⟨_, t₂, hupdate, hrest₂⟩ := run_bind_done hrest₁
    obtain ⟨m₂, h₂, hprev₂, _⟩ := h₁.relink hsurvive hprevBelow
      (fun hpresent => by
        have hpresent' : m (dirPage directory.key prevPage).key ≠ none := by
          intro hnone
          apply hpresent
          rw [Function.update_apply, hnone, ite_self]
        exact (hprev hpresent').erase hpresent)
      ((DirectoryNode.Edited.refl prev).setIndexNext rootPage) rfl hupdate
    obtain ⟨rootData, t₃, hread, hrest₃⟩ := run_bind_done hrest₂
    obtain ⟨hshows₃, hrootData⟩ := h₂.shows.read hread
    have h₃ : Amid view directory m₀ lists m₂ t₃ := ⟨hshows₃, h₂.kept, h₂.listed⟩
    obtain ⟨root, t₄, hparse, hrest₄⟩ := run_bind_done hrest₃
    obtain ⟨rfl, hroot⟩ := Amid.parse hparse hrootData
    obtain ⟨root₀, hroot₀, _⟩ := h₃.kept.edited hroot
    obtain ⟨_, t₅, hupdateRoot, hrest₅⟩ := run_bind_done hrest₄
    obtain ⟨m₅, h₅, _, _⟩ := h₃.relink hsurvive hroot₀ (fun _ => hroot)
      ((DirectoryNode.Edited.refl root).setIndexPrevious prevPage) rfl hupdateRoot
    refine h₅.eraseRoot hprevBelow ?_ hrest₅
    intro hempty
    rw [← h₂.listed, hprev₂.listed]
    exact hempty
  refine h.eraseRoot hprevBelow ?_ hrun
  intro hempty
  rw [← h.listed]
  by_cases hnone : m (dirPage directory.key prevPage).key = none
  . exact listed_of_none hnone
  . rw [(hprev hnone).listed, hempty]

end Amid

def WithoutItem (k item : Hash256) (m m' : Contents Blob) : Prop :=
  ∀ k', m'.listed k' = if k' = k then (m.listed k').filter (· ≠ item) else m.listed k'

section Remove

variable (h : Amid view directory m₀ m₀.listed m₀ t) (hsurvive : m₀.PagesSurvive)

include h hsurvive

theorem removePage_amid (hpage : m₀.Holds (dirPage directory.key page).key node₁)
    (hrun : (removePage directory page node keepRoot).run step t = (.done b, t'))
    : ∃ m', Amid view directory m₀
        (Function.update m₀.listed (dirPage directory.key page).key []) m' t' := by
  unfold removePage at hrun
  dsimp only at hrun
  split at hrun
  . cases hrun
  split at hrun
  . cases hrun
  obtain ⟨prevData, t₁, hread, hrest₁⟩ := run_bind_done hrun
  obtain ⟨h₁, hprevData⟩ := h.read hread
  obtain ⟨prev, t₂, hparse, hrest₂⟩ := run_bind_done hrest₁
  obtain ⟨rfl, hprev⟩ := Amid.parse hparse hprevData
  split at hrest₂
  . next hsame =>
    obtain ⟨_, t₃, hupdate, hrest₃⟩ := run_bind_done hrest₂
    obtain ⟨m₃, h₃, hprev₃, _⟩ := h₁.relink hsurvive hprev (fun _ => hprev)
      (((DirectoryNode.Edited.refl prev).setIndexNext _).setIndexPrevious _) rfl hupdate
    obtain ⟨_, t₄, herase, hrest₄⟩ := run_bind_done hrest₃
    apply (h₃.erase hpage herase).finish hsurvive hprev (hsame ▸ hprev) _ _ hrest₄
    . exact fun hpresent => hprev₃.erase hpresent
    intro hempty
    rw [hsame]
    exact listed_erase_of_empty (hprev₃.listed.trans hempty) _
  . next hdifferent =>
    obtain ⟨nextData, t₃, hreadNext, hrest₃⟩ := run_bind_done hrest₂
    obtain ⟨h₃, hnextData⟩ := h₁.read hreadNext
    obtain ⟨next, t₄, hparseNext, hrest₄⟩ := run_bind_done hrest₃
    obtain ⟨rfl, hnext⟩ := Amid.parse hparseNext hnextData
    obtain ⟨_, t₅, hupdate, hrest₅⟩ := run_bind_done hrest₄
    obtain ⟨m₅, h₅, hprev₅, hother₅⟩ := h₃.relink hsurvive hprev (fun _ => hprev)
      ((DirectoryNode.Edited.refl prev).setIndexNext _) rfl hupdate
    obtain ⟨_, t₆, hupdateNext, hrest₆⟩ := run_bind_done hrest₅
    obtain ⟨m₆, h₆, hnext₆, hother₆⟩ := h₅.relink hsurvive hnext
      (fun _ => hnext.congr (hother₅ _ hdifferent))
      ((DirectoryNode.Edited.refl next).setIndexPrevious _) rfl hupdateNext
    have hprev₆ := hprev₅.congr (hother₆ _ (Ne.symm hdifferent))
    obtain ⟨_, t₇, herase, hrest₇⟩ := run_bind_done hrest₆
    apply (h₆.erase hpage herase).finish hsurvive hprev hnext _ _ hrest₇
    . exact fun hpresent => hprev₆.erase hpresent
    . exact fun hempty => listed_erase_of_empty (hnext₆.listed.trans hempty) _

theorem removeFromRoot_amid
    (hpage : m₀.Holds (dirPage directory.key rootPage).key node₁) (hitem : item ∈ node₁.indexes)
    (hedited : node₁.Edited node) (hempty : node.indexes = [])
    (hrun : (removeFromRoot directory node keepRoot).run step t = (.done b, t'))
    : ∃ m', Amid view directory m₀
        (Function.update m₀.listed (dirPage directory.key rootPage).key []) m' t' := by
  have hupdated : ∀ {t t' : ApplyStateTable Blob σ} {u : Unit} {node' : DirectoryNode},
      Amid view directory m₀ m₀.listed m₀ t → node₁.Edited node' → node'.indexes = [] →
      (State.updateNode (dirPage directory.key rootPage) node').run step t = (.done u, t') →
      ∃ m', Amid view directory m₀
        (Function.update m₀.listed (dirPage directory.key rootPage).key []) m' t' := by
    intro t t' u node' h hedited hempty hupdate
    obtain ⟨m', h', _⟩ := h.updateNode hsurvive hpage (fun _ => hpage) hedited hupdate
    rw [hempty] at h'
    exact ⟨m', h'⟩
  unfold removeFromRoot at hrun
  dsimp only at hrun
  split at hrun
  . cases hrun
  split at hrun
  . cases hrun
  split at hrun
  . obtain ⟨lastData, t₁, hread, hrest₁⟩ := run_bind_done hrun
    obtain ⟨h₁, hlastData⟩ := h.read hread
    obtain ⟨last, t₂, hparse, hrest₂⟩ := run_bind_done hrest₁
    obtain ⟨rfl, hlast⟩ := Amid.parse hparse hlastData
    split at hrest₂
    . next hlastEmpty =>
      have hlastEmpty := List.isEmpty_iff.mp hlastEmpty
      -- the root still lists the item
      have hne : (dirPage directory.key node.indexNext).key
          ≠ (dirPage directory.key rootPage).key := by
        intro heq
        rw [heq] at hlast
        rw [hpage.unique hlast, hlastEmpty] at hitem
        cases hitem
      obtain ⟨_, t₃, hupdate, hrest₃⟩ := run_bind_done hrest₂
      obtain ⟨m₃, h₃⟩ := hupdated h₁ ((hedited.setIndexNext _).setIndexPrevious _) hempty hupdate
      obtain ⟨_, t₄, herase, hrest₄⟩ := run_bind_done hrest₃
      have h₄ := h₃.eraseEmpty hlast (by
        rw [update_of_ne hne, hlast.listed, hlastEmpty]) herase
      split at hrest₄
      . cases hrest₄
        exact ⟨_, h₄⟩
      obtain ⟨_, t₅, heraseRoot, hrest₅⟩ := run_bind_done hrest₄
      cases hrest₅
      exact ⟨_, h₄.eraseEmpty hpage (update_self _ _ _) heraseRoot⟩
    obtain ⟨_, t₃, hupdate, hrest₃⟩ := run_bind_done hrest₂
    cases hrest₃
    exact hupdated h₁ hedited hempty hupdate
  split at hrun
  . obtain ⟨_, t₃, hupdate, hrest₃⟩ := run_bind_done hrun
    cases hrest₃
    exact hupdated h hedited hempty hupdate
  obtain ⟨_, t₃, herase, hrest₃⟩ := run_bind_done hrun
  cases hrest₃
  exact ⟨_, h.erase hpage herase⟩

omit h in
theorem dirRemove_withoutItem (h : At view m₀ m₀ t)
    (hrun : (dirRemove directory page item keepRoot).run step t = (.done true, t'))
    : item ∈ m₀.listed (dirPage directory.key page).key
      ∧ ∃ m', At view m₀ m' t' ∧ Contents.PagesKept (IsPage directory) m₀ m'
        ∧ WithoutItem (dirPage directory.key page).key item m₀ m' := by
  unfold dirRemove at hrun
  dsimp only at hrun
  obtain ⟨pageData, t₁, hread, hrest₁⟩ := run_bind_done hrun
  obtain ⟨hshows, hpageData⟩ := h.read hread
  have h₁ : Amid view directory m₀ m₀.listed m₀ t₁ := ⟨hshows, .refl _ _, rfl⟩
  cases pageData with
  | none => cases hrest₁
  | some data =>
    obtain ⟨node, t₂, hparse, hrest₂⟩ := run_bind_done hrest₁
    obtain ⟨rfl, hpage⟩ := Amid.parse hparse hpageData
    split at hrest₂
    . cases hrest₂
    . next hitem =>
      have hitem := not_not.mp hitem
      refine ⟨hpage.listed ▸ hitem, ?_⟩
      have hedited := DirectoryNode.Edited.setIndexes node (node.indexes.filter (· ≠ item))
      have hremoved : ∃ m', Amid view directory m₀ (Function.update m₀.listed
          (dirPage directory.key page).key (node.indexes.filter (· ≠ item))) m' t' := by
        split at hrest₂
        . obtain ⟨_, t₃, hupdate, hrest₃⟩ := run_bind_done hrest₂
          obtain ⟨m₃, h₃, _⟩ := h₁.updateNode hsurvive hpage (fun _ => hpage) hedited hupdate
          cases hrest₃
          exact ⟨m₃, h₃⟩
        . next hempty =>
          have hempty : node.indexes.filter (· ≠ item) = [] := by simpa using hempty
          rw [hempty]
          split at hrest₂
          . next hroot =>
            subst hroot
            exact removeFromRoot_amid h₁ hsurvive hpage hitem hedited hempty hrest₂
          . exact removePage_amid h₁ hsurvive hpage hrest₂
      obtain ⟨m', h'⟩ := hremoved
      refine ⟨m', h'.shows, h'.kept, ?_⟩
      intro k'
      rw [h'.listed, update_apply]
      split
      . next hk => rw [hk, hpage.listed]
      . rfl

end Remove

end ApplyStateTable

end ApplyState
