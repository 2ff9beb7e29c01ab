import GoXrpl.State.Impl.Directory
import GoXrpl.State.Contents

open Function State.LedgerView
open Program.Prog (run_bind_done)

namespace State

open Program
open Keylet (dirPage)

structure Page where
  keys : List Hash256
  next : UInt64
  prev : UInt64
  deriving DecidableEq

def DirectoryNode.page (node : DirectoryNode) : Page where
  keys := node.indexes
  next := node.indexNext
  prev := node.indexPrevious

abbrev Pages := UInt64 → Option Page

structure Records.PagesLawful (Blob : Type) [Codec Blob] [Records Blob] : Prop where
  parse : ∀ (node : DirectoryNode) (isBookDir : Bool) (data : Blob),
    Records.serializeDirectoryNode node isBookDir = some data →
    ∃ node', Records.parseDirectoryNode data = some node' ∧ node'.page = node.page
  type : ∀ (node : DirectoryNode) (isBookDir : Bool) (data : Blob),
    Records.serializeDirectoryNode node isBookDir = some data →
    Codec.decodeType data = some .directoryNode

def PagesApart [Sha512Half] (root : Hash256) : Prop :=
  Function.Injective fun page => (dirPage root page).key

variable {Blob σ : Type} [Codec Blob] [Records Blob] [Sha512Half]

def Stores (root : Hash256) (m : Contents Blob) (pages : Pages) : Prop :=
  ∀ page, m (dirPage root page).key = none ∧ pages page = none
    ∨ ∃ data node, m (dirPage root page).key = some data
      ∧ Codec.decodeType data = some .directoryNode
      ∧ Records.parseDirectoryNode data = some node ∧ pages page = some node.page

namespace Stores

variable {m : Contents Blob}

theorem fits (h : Stores root m pages) (page : UInt64) : (dirPage root page).Fits m := by
  intro data hdata
  rcases h page with ⟨hnone, _⟩ | ⟨data', node, hdata', htype, _⟩
  . rw [hnone] at hdata
    cases hdata
  rw [hdata'] at hdata
  cases hdata
  simp [matchesKeyletType, dirPage, htype]

theorem find_eq (h : Stores root m pages) (page : UInt64)
    : m.find (dirPage root page) = none ∧ pages page = none
      ∨ ∃ data node, m.find (dirPage root page) = some data
        ∧ Records.parseDirectoryNode data = some node ∧ pages page = some node.page := by
  rw [Contents.find_of_fits (h.fits page)]
  rcases h page with hnone | ⟨data, node, hdata, _, hparse, hpage⟩
  . exact .inl hnone
  . exact .inr ⟨data, node, hdata, hparse, hpage⟩

theorem isSome_eq (h : Stores root m pages) (page : UInt64)
    : (m (dirPage root page).key).isSome = (pages page).isSome := by
  rcases h page with ⟨hnone, hpage⟩ | ⟨data, node, hdata, _, _, hpage⟩
  . rw [hnone, hpage]
    rfl
  rw [hdata, hpage]
  rfl

theorem update (h : Stores root m pages) (hapart : PagesApart root)
    (hlawful : Records.PagesLawful Blob)
    (hdata : Records.serializeDirectoryNode node isBookDir = some data)
    : Stores root (update m (dirPage root page).key (some data))
        (update pages page (some node.page)) := by
  intro page'
  by_cases heq : page' = page
  . subst heq
    obtain ⟨node', hparse, hnode'⟩ := hlawful.parse node isBookDir data hdata
    right
    refine ⟨data, node', update_self _ _ _, hlawful.type node isBookDir data hdata, hparse, ?_⟩
    rw [update_self, hnode']
  rw [update_of_ne (fun hkey => heq (hapart hkey)), update_of_ne heq]
  exact h page'

theorem erase (h : Stores root m pages) (hapart : PagesApart root)
    : Stores root (Function.update m (dirPage root page).key none)
        (Function.update pages page none) := by
  intro page'
  by_cases heq : page' = page
  . subst heq
    exact .inl ⟨Function.update_self _ _ _, Function.update_self _ _ _⟩
  rw [Function.update_of_ne (fun hkey => heq (hapart hkey)), Function.update_of_ne heq]
  exact h page'

end Stores

variable [LedgerView Blob σ]

def HasPages (view : MapView Blob σ) (root : Hash256) (pages : Pages) (s : σ) : Prop :=
  ∃ m, Stands view m s ∧ Stores root m pages

namespace HasPages

variable {view : MapView Blob σ} {pages : Pages} {s s' : σ}

theorem read (h : HasPages view root pages s)
    (hrun : (Access.read (dirPage root page)).run step s = (.done data, s'))
    : HasPages view root pages s'
      ∧ (data = none ∧ pages page = none
        ∨ ∃ d node, data = some d ∧ Records.parseDirectoryNode d = some node
          ∧ pages page = some node.page) := by
  obtain ⟨m, hstands, hstores⟩ := h
  obtain ⟨hstands', rfl⟩ := hstands.read hrun
  refine ⟨⟨m, hstands', hstores⟩, ?_⟩
  rcases hstores.find_eq page with ⟨hnone, hpage⟩ | ⟨d, node, hfind, hparse, hpage⟩
  . exact .inl ⟨hnone, hpage⟩
  . exact .inr ⟨d, node, hfind, hparse, hpage⟩

omit [Codec Blob] [Sha512Half] in
theorem parse
    (hdata : data = none ∧ pages page = none
      ∨ ∃ d node, data = some d ∧ Records.parseDirectoryNode d = some node
        ∧ pages page = some node.page)
    (hrun : (parseDirectoryNode data).run step s = (.done node, s'))
    : s' = s ∧ pages page = some node.page := by
  unfold parseDirectoryNode at hrun
  obtain ⟨hnode, rfl⟩ := Prog.run_ofOption_done.mp hrun
  refine ⟨rfl, ?_⟩
  rcases hdata with ⟨rfl, _⟩ | ⟨d, node', rfl, hparse, hpage⟩
  . cases hnode
  rw [Option.bind_some, hparse, Option.some.injEq] at hnode
  rw [hpage, hnode]

theorem readNode (h : HasPages view root pages s)
    (hrun : (do
      let data ← Access.read (dirPage root page)
      parseDirectoryNode data : TableProg Blob Error DirectoryNode).run step s
        = (.done node, s'))
    : HasPages view root pages s' ∧ pages page = some node.page := by
  obtain ⟨data, s₁, hread, hparse⟩ := run_bind_done hrun
  obtain ⟨hpages, hdata⟩ := h.read hread
  obtain ⟨rfl, hpage⟩ := parse hdata hparse
  exact ⟨hpages, hpage⟩

theorem has (h : HasPages view root pages s)
    (hrun : (Access.has (dirPage root page)).run step s = (.done found, s'))
    : HasPages view root pages s' ∧ found = (pages page).isSome := by
  obtain ⟨m, hstands, hstores⟩ := h
  obtain ⟨hanswer, rfl⟩ := Prog.run_ofExcept_done.mp hrun
  have hfits : (dirPage root page).Fits (view.contents s) := by
    rw [hstands.contents]
    exact hstores.fits page
  refine ⟨⟨m, ⟨view.query_inv (.has _) hstands.inv,
    (view.query_contents (.has _) hstands.inv).trans hstands.contents⟩, hstores⟩, ?_⟩
  rw [view.has_ok hstands.inv hfits hanswer, hstands.contents, hstores.isSome_eq]

section Write

variable (hwrites : view.Writes) (hapart : PagesApart root) (hlawful : Records.PagesLawful Blob)

include hwrites hapart

theorem erase (h : HasPages view root pages s)
    (hrun : (Access.erase (dirPage root page)).run step s = (.done u, s'))
    : HasPages view root (Function.update pages page none) s' := by
  obtain ⟨m, hstands, hstores⟩ := h
  exact ⟨_, hstands.write (w := .erase (dirPage root page)) hwrites (hstores.fits page) hrun,
    hstores.erase hapart⟩

include hlawful

theorem updatePage (h : HasPages view root pages s)
    (hrun : (State.updatePage (dirPage root page) node isBookDir).run step s
      = (.done u, s'))
    : HasPages view root (update pages page (some node.page)) s' := by
  obtain ⟨m, hstands, hstores⟩ := h
  obtain ⟨data, s₁, hdata, hupdate⟩ := run_bind_done hrun
  obtain ⟨hserialize, rfl⟩ := Prog.run_ofOption_done.mp hdata
  exact ⟨_, hstands.write (w := .update (dirPage root page) data) hwrites (hstores.fits page)
    hupdate, hstores.update hapart hlawful hserialize⟩

theorem updateNode (h : HasPages view root pages s)
    (hrun : (State.updateNode (dirPage root page) node).run step s = (.done u, s'))
    : HasPages view root (update pages page (some node.page)) s' :=
  updatePage hwrites hapart hlawful h hrun

theorem insertPage (h : HasPages view root pages s)
    (hrun : (State.insertPage (dirPage root page) node isBookDir).run step s
      = (.done u, s'))
    : HasPages view root (update pages page (some node.page)) s' := by
  obtain ⟨m, hstands, hstores⟩ := h
  obtain ⟨data, s₁, hdata, hinsert⟩ := run_bind_done hrun
  obtain ⟨hserialize, rfl⟩ := Prog.run_ofOption_done.mp hdata
  exact ⟨_, hstands.write (w := .insert (dirPage root page) data) hwrites (hstores.fits page)
    hinsert, hstores.update hapart hlawful hserialize⟩

end Write

end HasPages

inductive Inserted (pages : Pages) (key : Hash256) (preserveOrder : Bool) (page : UInt64)
    : Pages → Prop where
  | create (absent : pages 0 = none) (page_eq : page = 0)
      : Inserted pages key preserveOrder page (Function.update pages 0 (some ⟨[key], 0, 0⟩))
  | extend {root node : Page} {keys : List Hash256} (root_eq : pages 0 = some root)
      (page_eq : page = root.prev) (node_eq : pages page = some node)
      (room : node.keys.length < dirNodeMaxEntries)
      (keys_eq : insertKey preserveOrder node.keys key = some keys)
      : Inserted pages key preserveOrder page (Function.update pages page (some { node with keys }))
  | grow {root root' node : Page} (root_eq : pages 0 = some root)
      (node_eq : pages root.prev = some node)
      (full : ¬ node.keys.length < dirNodeMaxEntries) (page_eq : page = root.prev + 1)
      (page_ne : page ≠ 0)
      (root'_eq : Function.update pages root.prev (some { node with next := page }) 0 = some root')
      : Inserted pages key preserveOrder page
          (Function.update (Function.update
            (Function.update pages root.prev (some { node with next := page }))
            0 (some { root' with prev := page }))
            page (some ⟨[key], 0, if page ≠ 1 then root.prev else 0⟩))

variable {view : MapView Blob σ} {dirKey : Keylet}
variable (hwrites : view.Writes) (hapart : PagesApart dirKey.key)
variable (hlawful : Records.PagesLawful Blob)

theorem dirPage_root (h : dirKey.type = .of .directoryNode) : dirPage dirKey.key 0 = dirKey := by
  rcases dirKey with ⟨type, key⟩
  cases h
  rfl

theorem dirPage_eq (h : dirKey.type = .of .directoryNode) (page : UInt64)
    : (⟨dirKey.type, (dirPage dirKey.key page).key⟩ : Keylet) = dirPage dirKey.key page := by
  rw [h]
  rfl

theorem readLastPage_done (h : HasPages view dirKey.key pages s) (hroot : pages 0 = some root.page)
    (hrun : (readLastPage dirKey root).run step s = (.done node, s'))
    : HasPages view dirKey.key pages s' ∧ pages root.indexPrevious = some node.page
      ∧ (root.indexPrevious = 0 → node = root) := by
  unfold readLastPage at hrun
  split at hrun
  . rename_i hzero
    cases hrun
    change root.indexPrevious = 0 at hzero
    rw [hzero]
    exact ⟨h, hroot, fun _ => rfl⟩
  rename_i hne
  obtain ⟨hpages, hnode⟩ := h.readNode hrun
  exact ⟨hpages, hnode, fun hzero => absurd hzero hne⟩

include hwrites hapart hlawful

variable (htype : dirKey.type = .of .directoryNode)

include htype

theorem linkPages_done (h : HasPages view dirKey.key pages s)
    (hroot : pages 0 = some root.page) (hsame : page = 0 → node = root)
    (hrun : (linkPages dirKey page newPage root node preserveOrder).run step s
      = (.done u, s'))
    : ∃ root', update pages page (some { node.page with next := newPage }) 0 = some root'
      ∧ HasPages view dirKey.key (update
          (update pages page (some { node.page with next := newPage }))
          0 (some { root' with prev := newPage })) s' := by
  unfold linkPages at hrun
  split at hrun
  . rename_i hzero
    change page = 0 at hzero
    subst hzero
    rw [← dirPage_root htype] at hrun
    refine ⟨{ node.page with next := newPage }, update_self _ _ _, ?_⟩
    rw [hsame rfl, update_idem]
    exact h.updatePage hwrites hapart hlawful hrun
  rename_i hne
  change page ≠ 0 at hne
  rw [dirPage_eq htype] at hrun
  obtain ⟨_, s₁, hnode, hrest⟩ := run_bind_done hrun
  rw [← dirPage_root htype] at hrest
  refine ⟨root.page, ?_, ?_⟩
  . rw [update_of_ne hne.symm, hroot]
  . exact (h.updatePage hwrites hapart hlawful hnode).updatePage hwrites hapart hlawful hrest

theorem addPage_done (hsetup : ∀ node, (setupFunc node).page = node.page)
    (h : HasPages view dirKey.key pages s) (hroot : pages 0 = some root.page)
    (hpage : page = root.indexPrevious) (hnode : pages page = some node.page)
    (hsame : page = 0 → node = root) (hfull : ¬ node.indexes.length < dirNodeMaxEntries)
    (hrun : (addPage dirKey page root node itemKey preserveOrder fixDirectoryLimit setupFunc).run
      step s = (.done page', s'))
    : ∃ pages', HasPages view dirKey.key pages' s'
      ∧ Inserted pages itemKey preserveOrder page' pages' := by
  unfold addPage at hrun
  simp only at hrun
  split at hrun
  . cases hrun
  rename_i hroom
  rw [not_or] at hroom
  obtain ⟨_, s₁, hlink, hrest⟩ := run_bind_done hrun
  obtain ⟨root', hroot', hlinked⟩ :=
    linkPages_done hwrites hapart hlawful htype h hroot hsame hlink
  obtain ⟨_, s₂, hinsert, hdone⟩ := run_bind_done hrest
  cases hdone
  have hpages := hlinked.insertPage hwrites hapart hlawful hinsert
  subst hpage
  refine ⟨_, hpages, ?_⟩
  have hfresh : (setupFunc (if root.indexPrevious + 1 ≠ 1 then
      (DirectoryNode.fresh itemKey).setIndexPrevious (root.indexPrevious + 1 - 1)
      else DirectoryNode.fresh itemKey)).page
        = ⟨[itemKey], 0, if root.indexPrevious + 1 ≠ 1 then root.indexPrevious else 0⟩ := by
    rw [hsetup, UInt64.add_sub_cancel]
    split <;> rfl
  rw [hfresh]
  exact .grow hroot hnode hfull rfl hroom.1 hroot'

theorem dirInsert_done (hsetup : ∀ node, (setupFunc node).page = node.page) (h : HasPages view dirKey.key pages s)
    (hrun : (dirInsert dirKey itemKey preserveOrder fixDirectoryLimit setupFunc).run
      step s = (.done page, s'))
    : ∃ pages', HasPages view dirKey.key pages' s'
      ∧ Inserted pages itemKey preserveOrder page pages' := by
  obtain ⟨found, s₁, hhas, hrest⟩ := run_bind_done hrun
  rw [← dirPage_root htype] at hhas
  obtain ⟨h₁, hfound⟩ := h.has hhas
  split at hrest
  . rename_i habsent
    obtain ⟨_, s₂, hinsert, hdone⟩ := run_bind_done hrest
    cases hdone
    rw [← dirPage_root htype] at hinsert
    have hpages := h₁.insertPage hwrites hapart hlawful hinsert
    rw [hsetup] at hpages
    refine ⟨_, hpages, .create ?_ rfl⟩
    rw [hfound] at habsent
    simpa using habsent
  obtain ⟨rootData, s₂, hread, hrest₁⟩ := run_bind_done hrest
  rw [← dirPage_root htype] at hread
  obtain ⟨h₂, hdata⟩ := h₁.read hread
  obtain ⟨root, s₃, hparse, hrest₂⟩ := run_bind_done hrest₁
  obtain ⟨rfl, hroot⟩ := HasPages.parse hdata hparse
  obtain ⟨node, s₄, hlast, hrest₃⟩ := run_bind_done hrest₂
  obtain ⟨h₃, hnode, hsame⟩ := readLastPage_done h₂ hroot hlast
  split at hrest₃
  . rename_i hroom
    obtain ⟨keys, s₅, hinsert, hrest₄⟩ := run_bind_done hrest₃
    obtain ⟨hkeys, rfl⟩ := Prog.run_ofOption_done.mp hinsert
    obtain ⟨_, s₆, hupdate, hdone⟩ := run_bind_done hrest₄
    cases hdone
    rw [dirPage_eq htype] at hupdate
    have hpages := h₃.updatePage hwrites hapart hlawful hupdate
    exact ⟨_, hpages, .extend hroot rfl hnode hroom hkeys⟩
  rename_i hfull
  exact addPage_done hwrites hapart hlawful htype hsetup h₃ hroot rfl hnode hsame hfull
    hrest₃

end State
