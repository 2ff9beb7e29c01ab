import GoXrpl.LinkedList.Path
import GoXrpl.State.Lemmas.Pages

open List Function State.LedgerView
open Program.Prog (run_bind_done)

namespace State

open Program

namespace Pages

variable {pages : Pages}

def links (pages : Pages) : Links UInt64 where
  next page := (pages page).elim 0 Page.next
  prev page := (pages page).elim 0 Page.prev

def keysOf (pages : Pages) (page : UInt64) : List Hash256 :=
  (pages page).elim [] Page.keys

structure Chained (pages : Pages) (l : List UInt64) : Prop where
  exists_iff : ∀ page, (pages page).isSome ↔ page ∈ 0 :: l
  path : pages.links.Path 0 l 0
  ascending : (0 :: l).Pairwise (· < ·)
  nonempty : ∀ page ∈ l, pages.keysOf page ≠ []
  small : ∀ page, (pages.keysOf page).length ≤ dirNodeMaxEntries

namespace Chained

theorem nodup (h : Chained pages l) : (0 :: l).Nodup :=
  h.ascending.imp fun hlt heq => by
    rw [heq] at hlt
    exact UInt64.lt_irrefl _ hlt

theorem zero_notMem (h : Chained pages l) : 0 ∉ l :=
  (nodup_cons.mp h.nodup).1

theorem exists_page (h : Chained pages l) (hmem : page ∈ 0 :: l) : ∃ node, pages page = some node :=
  Option.isSome_iff_exists.mp ((h.exists_iff page).mpr hmem)

theorem keysOf_eq (h : pages page = some node) : pages.keysOf page = node.keys := by
  unfold keysOf
  rw [h]
  rfl

theorem next_eq (h : pages page = some node) : pages.links.next page = node.next := by
  simp [links, h]

theorem prev_eq (h : pages page = some node) : pages.links.prev page = node.prev := by
  simp [links, h]

theorem root_links (h : Chained pages l) (hroot : pages 0 = some root)
    : l = [] ∧ root.next = 0 ∧ root.prev = 0
      ∨ l ≠ [] ∧ root.next ∈ l ∧ root.prev ∈ l := by
  rw [← next_eq hroot, ← prev_eq hroot]
  cases l with
  | nil => exact .inl ⟨rfl, h.path.1, h.path.2⟩
  | cons c l =>
    right
    obtain ⟨hnext, _, hrest⟩ := h.path
    exact ⟨cons_ne_nil c l, by rw [hnext]; simp, hrest.prev_mem⟩

theorem page_links (h : Chained pages l) (hmem : page ∈ l)
    : ∃ l₁ l₂, l = l₁ ++ page :: l₂ ∧ pages.links.prev page ∈ 0 :: l₁
      ∧ pages.links.next page ∈ l₂ ++ [0] := by
  obtain ⟨l₁, l₂, rfl⟩ := append_of_mem hmem
  obtain ⟨hbefore, hafter⟩ := Links.path_append.mp h.path
  exact ⟨l₁, l₂, rfl, hbefore.prev_mem, hafter.next_mem⟩

end Chained

def setNext (pages : Pages) (page next : UInt64) : Pages :=
  update pages page ((pages page).map fun node => { node with next })

def setPrev (pages : Pages) (page prev : UInt64) : Pages :=
  update pages page ((pages page).map fun node => { node with prev })

def unlink (pages : Pages) (page : UInt64) : Pages :=
  update (setPrev (setNext pages (pages.links.prev page) (pages.links.next page))
    (pages.links.next page) (pages.links.prev page)) page none

def Clears (pages : Pages) (page : UInt64) : Prop :=
  pages.links.next page = 0 ∧ pages.links.prev page = 0 ∧ pages.keysOf 0 = []

end Pages

inductive Removed (pages : Pages) (l : List UInt64) (key : Hash256) (page : UInt64) (keepRoot : Bool)
    : Pages → Prop where
  | edit {node : Page} (node_eq : pages page = some node)
      (stays : node.keys.filter (· ≠ key) ≠ [] ∨ page = 0 ∧ (l ≠ [] ∨ keepRoot = true))
      : Removed pages l key page keepRoot
          (update pages page (some { node with keys := node.keys.filter (· ≠ key) }))
  | eraseRoot (page_eq : page = 0) (alone : l = []) (keepRoot_eq : keepRoot = false)
      (empty : (pages.keysOf page).filter (· ≠ key) = [])
      : Removed pages l key page keepRoot (update pages 0 none)
  | unlink (page_ne : page ≠ 0) (empty : (pages.keysOf page).filter (· ≠ key) = [])
      (stays : keepRoot = true ∨ ¬ pages.Clears page)
      : Removed pages l key page keepRoot (pages.unlink page)
  | clear (page_ne : page ≠ 0) (empty : (pages.keysOf page).filter (· ≠ key) = [])
      (keepRoot_eq : keepRoot = false) (clears : pages.Clears page)
      : Removed pages l key page keepRoot (update (pages.unlink page) 0 none)

variable {Blob σ : Type} [Codec Blob] [Records Blob] [Sha512Half] [LedgerView Blob σ]
variable {view : MapView Blob σ} {directory : Keylet} {l : List UInt64} {s s' : σ}
variable (hwrites : view.Writes) (hapart : PagesApart directory.key)
variable (hlawful : Records.PagesLawful Blob)

theorem HasPages.readNode_mapError (h : HasPages view root pages s)
    (hread : ((Access.read (Keylet.dirPage root page)).mapError f).run step s
      = (.done data, s₁))
    (hparse : (parseDirectoryNode data).run step s₁ = (.done node, s'))
    : HasPages view root pages s' ∧ pages page = some node.page := by
  obtain ⟨hpages, hdata⟩ := h.read (Prog.run_mapError_done.mp hread)
  obtain ⟨rfl, hpage⟩ := HasPages.parse hdata hparse
  exact ⟨hpages, hpage⟩

include hwrites hapart hlawful

variable (hchained : pages.Chained l) (h : HasPages view directory.key pages s)

include hchained h

theorem removeFromRoot_done (hroot : pages 0 = some root) (hnode : node.page = { root with keys:= [] })
    (hempty : root.keys.filter (· ≠ key) = [])
    (hrun : (removeFromRoot directory node keepRoot).run step s = (.done found, s'))
    : found = true ∧ ∃ pages', HasPages view directory.key pages' s'
      ∧ Removed pages l key 0 keepRoot pages' := by
  have hprev : node.indexPrevious = root.prev := congrArg Page.prev hnode
  have hnext : node.indexNext = root.next := congrArg Page.next hnode
  have hedit : ∀ {s₁ s₂ : σ} {u : Unit}, HasPages view directory.key pages s₁ →
      (l ≠ [] ∨ keepRoot = true) →
      (State.updateNode (Keylet.dirPage directory.key rootPage) node).run step s₁
        = (.done u, s₂) →
      ∃ pages', HasPages view directory.key pages' s₂ ∧ Removed pages l key 0 keepRoot pages' := by
    intro s₁ s₂ u h₁ hstays hupdate
    refine ⟨_, h₁.updateNode hwrites hapart hlawful hupdate, ?_⟩
    have hpage : node.page = { root with keys := root.keys.filter (· ≠ key) } := by
      rw [hnode, hempty]
    rw [hpage]
    exact .edit hroot (.inr ⟨rfl, hstays⟩)
  unfold removeFromRoot at hrun
  simp only [hprev, hnext] at hrun
  rcases hchained.root_links hroot with ⟨hl, hnext0, hprev0⟩ | ⟨hl, hnextl, hprevl⟩
  . rw [if_neg (fun hand => hand.2 hprev0), if_neg (fun hand => hand.2 hnext0),
      if_neg (fun hand => hand.2 hnext0)] at hrun
    split at hrun
    . rename_i hkeep
      have hkeepRoot : keepRoot = true := by
        rcases hkeep with hkeep | hne | hne
        . exact hkeep
        . exact absurd hnext0 hne
        . exact absurd hprev0 hne
      obtain ⟨_, s₁, hupdate, hdone⟩ := run_bind_done hrun
      cases hdone
      exact ⟨rfl, hedit h (.inr hkeepRoot) hupdate⟩
    rename_i hkeep
    obtain ⟨_, s₁, herase, hdone⟩ := run_bind_done hrun
    cases hdone
    refine ⟨rfl, _, h.erase hwrites hapart herase, .eraseRoot rfl hl ?_ ?_⟩
    . simpa using fun hkeepRoot => hkeep (.inl hkeepRoot)
    rw [Pages.Chained.keysOf_eq hroot]
    exact hempty
  have hnext0 : root.next ≠ rootPage := by
    change root.next ≠ 0
    rintro heq
    exact hchained.zero_notMem (heq ▸ hnextl)
  have hprev0 : root.prev ≠ rootPage := by
    change root.prev ≠ 0
    rintro heq
    exact hchained.zero_notMem (heq ▸ hprevl)
  rw [if_neg (fun hand => hnext0 hand.1), if_neg (fun hand => hprev0 hand.1)] at hrun
  split at hrun
  . obtain ⟨data, s₁, hread, hrest⟩ := run_bind_done hrun
    obtain ⟨lastPage, s₂, hparse, hrest'⟩ := run_bind_done hrest
    obtain ⟨h₂, hlast⟩ := h.readNode_mapError hread hparse
    have hnonempty : lastPage.indexes.isEmpty ≠ true := by
      have hkeys := hchained.nonempty root.next hnextl
      rw [Pages.Chained.keysOf_eq hlast] at hkeys
      change lastPage.indexes ≠ [] at hkeys
      simpa using hkeys
    rw [if_neg hnonempty] at hrest'
    obtain ⟨_, s₃, hupdate, hdone⟩ := run_bind_done hrest'
    cases hdone
    exact ⟨rfl, hedit h₂ (.inl hl) hupdate⟩
  rw [if_pos (.inr (.inl hnext0))] at hrun
  obtain ⟨_, s₁, hupdate, hdone⟩ := run_bind_done hrun
  cases hdone
  exact ⟨rfl, hedit h (.inl hl) hupdate⟩

theorem removePage_done (hmem : page ∈ l) (hprev : node.indexPrevious = pages.links.prev page)
    (hnext : node.indexNext = pages.links.next page)
    (hempty : (pages.keysOf page).filter (· ≠ key) = [])
    (hrun : (removePage directory page node keepRoot).run step s = (.done found, s'))
    : found = true ∧ ∃ pages', HasPages view directory.key pages' s'
      ∧ Removed pages l key page keepRoot pages' := by
  have hpage0 : page ≠ 0 := fun heq => hchained.zero_notMem (heq ▸ hmem)
  -- What follows the unlinking
  have hfinish : ∀ {s₁ : σ} {prev next : DirectoryNode},
      HasPages view directory.key (pages.unlink page) s₁ →
      (removePage.finish directory keepRoot (Keylet.dirPage directory.key (pages.links.prev page))
        (Keylet.dirPage directory.key (pages.links.next page)) prev next (pages.links.prev page)
        (pages.links.next page)).run step s₁ = (.done found, s') →
      (pages.links.prev page = 0 → prev.indexes = pages.keysOf 0) →
      (pages.links.next page ≠ 0 → next.indexes ≠ []) →
      found = true ∧ ∃ pages', HasPages view directory.key pages' s'
        ∧ Removed pages l key page keepRoot pages' := by
    intro s₁ prev next h₁ hrest hroot hnonempty
    unfold removePage.finish at hrest
    rw [if_neg (fun hand => hnonempty hand.1 (by simpa using hand.2.2))] at hrest
    unfold removePage.eraseRoot at hrest
    split at hrest
    . rename_i hclear
      obtain ⟨_, s₂, herase, hdone⟩ := run_bind_done hrest
      cases hdone
      obtain ⟨hkeep, hnext0, hprev0, hkeys⟩ := hclear
      change pages.links.next page = 0 at hnext0
      change pages.links.prev page = 0 at hprev0
      rw [hprev0] at herase
      refine ⟨rfl, _, h₁.erase hwrites hapart herase, .clear hpage0 hempty (by simpa using hkeep) ?_⟩
      exact ⟨hnext0, hprev0, by rw [← hroot hprev0]; simpa using hkeys⟩
    rename_i hstays
    cases hrest
    refine ⟨rfl, _, h₁, .unlink hpage0 hempty ?_⟩
    by_contra hnot
    rw [not_or, not_not] at hnot
    obtain ⟨hkeep, hnext0, hprev0, hkeys⟩ := hnot
    apply hstays
    refine ⟨by simpa using hkeep, hnext0, hprev0, ?_⟩
    rw [hroot hprev0, hkeys]
    rfl
  have hnonempty : pages.links.next page ≠ 0 → pages.keysOf (pages.links.next page) ≠ [] := by
    intro hnext0
    obtain ⟨l₁, l₂, rfl, _, hmem'⟩ := hchained.page_links hmem
    apply hchained.nonempty
    simp only [mem_append, mem_singleton] at hmem'
    have hl₂ := hmem'.resolve_right hnext0
    simp [hl₂]
  unfold removePage at hrun
  simp only [hprev, hnext] at hrun
  split at hrun
  . cases hrun
  split at hrun
  . cases hrun
  obtain ⟨prevData, s₁, hreadPrev, hrest⟩ := run_bind_done hrun
  obtain ⟨prev, s₂, hparsePrev, hrest₁⟩ := run_bind_done hrest
  obtain ⟨h₂, hprevPage⟩ := h.readNode_mapError hreadPrev hparsePrev
  have hroot : pages.links.prev page = 0 → prev.indexes = pages.keysOf 0 := by
    intro hprev0
    rw [hprev0] at hprevPage
    exact (Pages.Chained.keysOf_eq hprevPage).symm
  split at hrest₁
  . -- Both neighbours are one page.
    rename_i hsame
    have hsame : pages.links.next page = pages.links.prev page := hapart hsame
    obtain ⟨_, s₃, hupdate, hrest₂⟩ := run_bind_done hrest₁
    obtain ⟨_, s₄, herase, hrest₃⟩ := run_bind_done hrest₂
    have h₄ := (h₂.updateNode hwrites hapart hlawful hupdate).erase hwrites hapart herase
    have hunlink : update (update pages (pages.links.prev page)
        (some ((prev.setIndexNext (pages.links.next page)).setIndexPrevious
          (pages.links.prev page)).page)) page none = pages.unlink page := by
      unfold Pages.unlink Pages.setPrev Pages.setNext
      rw [hsame, hprevPage]
      simp only [update_self, Option.map_some, update_idem]
      rfl
    rw [hunlink] at h₄
    refine hfinish h₄ hrest₃ hroot ?_
    intro hnext0
    have hkeys := hnonempty hnext0
    rw [hsame, Pages.Chained.keysOf_eq hprevPage] at hkeys
    exact hkeys
  rename_i hdiffer
  have hdiffer : pages.links.next page ≠ pages.links.prev page :=
    fun heq => hdiffer (by rw [heq])
  obtain ⟨nextData, s₃, hreadNext, hrest₂⟩ := run_bind_done hrest₁
  obtain ⟨next, s₄, hparseNext, hrest₃⟩ := run_bind_done hrest₂
  obtain ⟨h₄, hnextPage⟩ := h₂.readNode_mapError hreadNext hparseNext
  obtain ⟨_, s₅, hupdatePrev, hrest₄⟩ := run_bind_done hrest₃
  obtain ⟨_, s₆, hupdateNext, hrest₅⟩ := run_bind_done hrest₄
  obtain ⟨_, s₇, herase, hrest₆⟩ := run_bind_done hrest₅
  have h₇ := ((h₄.updateNode hwrites hapart hlawful hupdatePrev).updateNode hwrites hapart
    hlawful hupdateNext).erase hwrites hapart herase
  have hunlink : update (update (update pages
      (pages.links.prev page) (some (prev.setIndexNext (pages.links.next page)).page))
      (pages.links.next page)
      (some (next.setIndexPrevious (pages.links.prev page)).page)) page none
        = pages.unlink page := by
    unfold Pages.unlink Pages.setPrev Pages.setNext
    rw [hprevPage, update_of_ne hdiffer, hnextPage]
    rfl
  rw [hunlink] at h₇
  refine hfinish h₇ hrest₆ hroot ?_
  intro hnext0
  have hkeys := hnonempty hnext0
  rw [Pages.Chained.keysOf_eq hnextPage] at hkeys
  exact hkeys

theorem dirRemove_done (hkey : key ∈ pages.keysOf page)
    (hrun : (dirRemove directory page key keepRoot).run step s = (.done found, s'))
    : found = true ∧ ∃ pages', HasPages view directory.key pages' s'
      ∧ Removed pages l key page keepRoot pages' := by
  obtain ⟨data, s₁, hread, hrest⟩ := run_bind_done hrun
  obtain ⟨h₁, hdata⟩ := h.read hread
  rcases hdata with ⟨rfl, hnone⟩ | ⟨d, node, rfl, hparse, hpage⟩
  . unfold Pages.keysOf at hkey
    rw [hnone] at hkey
    cases hkey
  dsimp only at hrest
  obtain ⟨node', s₂, hnode', hrest₁⟩ := run_bind_done hrest
  obtain ⟨rfl, hpage'⟩ := HasPages.parse (.inr ⟨d, node, rfl, hparse, hpage⟩) hnode'
  rw [Pages.Chained.keysOf_eq hpage'] at hkey
  change key ∈ node'.indexes at hkey
  rw [if_neg (not_not.mpr hkey)] at hrest₁
  split at hrest₁
  . rename_i hstays
    obtain ⟨_, s₃, hupdate, hdone⟩ := run_bind_done hrest₁
    cases hdone
    have hstays : node'.indexes.filter (· ≠ key) ≠ [] := by simpa using hstays
    exact ⟨rfl, _, h₁.updateNode hwrites hapart hlawful hupdate, .edit hpage' (.inl hstays)⟩
  rename_i hempty
  have hempty : node'.indexes.filter (· ≠ key) = [] := by simpa using hempty
  split at hrest₁
  . rename_i hroot
    change page = 0 at hroot
    subst hroot
    refine removeFromRoot_done hwrites hapart hlawful hchained h₁ hpage' ?_ hempty hrest₁
    unfold DirectoryNode.page
    rw [hempty]
  rename_i hroot
  have hmem : page ∈ l := by
    have hexists := (hchained.exists_iff page).mp (by rw [hpage']; rfl)
    exact (mem_cons.mp hexists).resolve_left hroot
  refine removePage_done hwrites hapart hlawful hchained h₁ hmem ?_ ?_ ?_ hrest₁
  . rw [Pages.Chained.prev_eq hpage']
    rfl
  . rw [Pages.Chained.next_eq hpage']
    rfl
  rw [Pages.Chained.keysOf_eq hpage']
  exact hempty

end State
