import Mathlib.Data.List.Pairwise
import GoXrpl.State.Lemmas.DirRemove
import GoXrpl.State.Lemmas.OrderedKeys

open Function List State.OrderedLedgerKeys

namespace State

namespace Pages

variable {pages pages' : Pages} {page next prev : UInt64} {keys : List Hash256}

def listing (pages : Pages) (order : List UInt64) : List Hash256 :=
  order.flatMap pages.keysOf

inductive Shape (pages : Pages) : List UInt64 → Prop where
  | absent (none : ∀ page, pages page = none) : Shape pages []
  | present {l : List UInt64} (chained : pages.Chained l) : Shape pages (0 :: l)

structure Consistent (pages : Pages) (order : List UInt64) (live : List (Hash256 × UInt64)) : Prop where
  shape : pages.Shape order
  items : (pages.listing order).Perm (live.map Prod.fst)
  located : ∀ item ∈ live, item.1 ∈ pages.keysOf item.2
  distinct : (live.map Prod.fst).Nodup

@[simp]
theorem keysOf_update_self (node : Option Page)
    : keysOf (update pages page node) page = node.elim [] Page.keys := by
  simp [keysOf]

theorem keysOf_update_of_ne (h : page' ≠ page) (node : Option Page)
    : keysOf (update pages page node) page' = pages.keysOf page' := by
  simp [keysOf, h]

theorem keysOf_update_eq (h : node.elim [] Page.keys = pages.keysOf page)
    : keysOf (update pages page node) = pages.keysOf := by
  funext page'
  by_cases heq : page' = page
  . subst heq
    rw [keysOf_update_self, h]
  . rw [keysOf_update_of_ne heq]

theorem keysOf_setNext (page next : UInt64) : (pages.setNext page next).keysOf = pages.keysOf := by
  apply keysOf_update_eq
  unfold keysOf
  cases pages page <;> rfl

theorem keysOf_setPrev (page prev : UInt64) : (pages.setPrev page prev).keysOf = pages.keysOf := by
  apply keysOf_update_eq
  unfold keysOf
  cases pages page <;> rfl

theorem isSome_update (page' : UInt64) (node : Option Page)
    : (update pages page node page').isSome
        = if page' = page then node.isSome else (pages page').isSome := by
  by_cases heq : page' = page
  . subst heq
    simp
  . simp [heq]

theorem isSome_update_map (f : Page → Page) (page page' : UInt64)
    : (update pages page ((pages page).map f) page').isSome = (pages page').isSome := by
  rw [isSome_update, Option.isSome_map]
  split
  . rename_i heq
    rw [heq]
  . rfl

theorem isSome_setNext (page next page' : UInt64)
    : (pages.setNext page next page').isSome = (pages page').isSome :=
  isSome_update_map _ page page'

theorem isSome_setPrev (page prev page' : UInt64)
    : (pages.setPrev page prev page').isSome = (pages page').isSome :=
  isSome_update_map _ page page'

namespace Consistent

variable (h : Consistent pages order live)

include h

theorem nodup_listing : (pages.listing order).Nodup :=
  h.items.nodup_iff.mpr h.distinct

theorem mem_order (hkey : key ∈ pages.keysOf page) : page ∈ order := by
  have hsome : (pages page).isSome := by
    unfold keysOf at hkey
    cases hpage : pages page with
    | none =>
      rw [hpage] at hkey
      cases hkey
    | some node => rfl
  cases h.shape with
  | absent none =>
    rw [none page] at hsome
    cases hsome
  | present chained => exact (chained.exists_iff page).mp hsome

theorem page_unique (hkey : key ∈ pages.keysOf page) (hkey' : key ∈ pages.keysOf page')
    : page' = page := by
  by_contra hne
  have hsymm : Std.Symm (onFun List.Disjoint pages.keysOf) :=
    ⟨fun _ _ hdisjoint => disjoint_comm.mp hdisjoint⟩
  have hpair := (nodup_flatMap.mp h.nodup_listing).2
  exact hpair.forall (h.mem_order hkey') (h.mem_order hkey) hne hkey' hkey

theorem filter_eq_self (hkey : key ∈ pages.keysOf page) (hne : page' ≠ page)
    : (pages.keysOf page').filter (· ≠ key) = pages.keysOf page' := by
  rw [List.filter_eq_self]
  intro key' hkey'
  rw [decide_eq_true_eq]
  rintro rfl
  exact hne (h.page_unique hkey hkey')

end Consistent

theorem keysOf_unlink (page page' : UInt64)
    : (pages.unlink page).keysOf page' = if page' = page then [] else pages.keysOf page' := by
  unfold unlink
  by_cases heq : page' = page
  . subst heq
    rw [keysOf_update_self, if_pos rfl]
    rfl
  . rw [keysOf_update_of_ne heq, keysOf_setPrev, keysOf_setNext, if_neg heq]

theorem isSome_unlink (page page' : UInt64)
    : (pages.unlink page page').isSome = if page' = page then false else (pages page').isSome := by
  unfold unlink
  rw [isSome_update, isSome_setPrev, isSome_setNext]
  rfl

theorem keysOf_removed (h : Consistent pages order live) (hkey : key ∈ pages.keysOf page)
    (hremoved : Removed pages l key page keepRoot pages') (page' : UInt64)
    : pages'.keysOf page' = (pages.keysOf page').filter (· ≠ key) := by
  have hunlink : (pages.keysOf page).filter (· ≠ key) = [] →
      (pages.unlink page).keysOf page' = (pages.keysOf page').filter (· ≠ key) := by
    intro empty
    rw [keysOf_unlink]
    split
    . rename_i heq
      rw [heq, empty]
    rename_i heq
    rw [h.filter_eq_self hkey heq]
  cases hremoved with
  | edit node_eq stays =>
    by_cases heq : page' = page
    . subst heq
      rw [keysOf_update_self, Chained.keysOf_eq node_eq]
      rfl
    . rw [keysOf_update_of_ne heq, h.filter_eq_self hkey heq]
  | eraseRoot page_eq alone keepRoot_eq empty =>
    subst page_eq
    by_cases heq : page' = 0
    . subst heq
      rw [keysOf_update_self, empty]
      rfl
    . rw [keysOf_update_of_ne heq, h.filter_eq_self hkey heq]
  | unlink page_ne empty stays => exact hunlink empty
  | clear page_ne empty keepRoot_eq clears =>
    by_cases heq : page' = 0
    . subst heq
      rw [keysOf_update_self, clears.2.2]
      rfl
    rw [keysOf_update_of_ne heq]
    exact hunlink empty

theorem listing_removed (h : Consistent pages order live) (hkey : key ∈ pages.keysOf page)
    (hremoved : Removed pages l key page keepRoot pages')
    : pages'.listing order = (pages.listing order).filter (· ≠ key) := by
  unfold listing
  rw [filter_flatMap]
  congr 1
  funext page'
  exact keysOf_removed h hkey hremoved page'

theorem listing_drop (h : pages.keysOf page = [])
    : pages.listing (l₁ ++ page :: l₂) = pages.listing (l₁ ++ l₂) := by
  simp [listing, h]

theorem links_update_some (node : Page)
    : links (update pages page (some node))
        = ⟨update pages.links.next page node.next,
          update pages.links.prev page node.prev⟩ := by
  unfold links
  congr 1 <;> funext page' <;> by_cases heq : page' = page
  . subst heq
    simp
  . simp [heq]
  . subst heq
    simp
  . simp [heq]

theorem links_setNext (h : (pages page).isSome)
    : (pages.setNext page next).links
        = ⟨update pages.links.next page next, pages.links.prev⟩ := by
  obtain ⟨node, hnode⟩ := Option.isSome_iff_exists.mp h
  unfold setNext
  rw [hnode, Option.map_some, links_update_some, ← Chained.prev_eq hnode, update_eq_self]

theorem links_setPrev (h : (pages page).isSome)
    : (pages.setPrev page prev).links
        = ⟨pages.links.next, update pages.links.prev page prev⟩ := by
  obtain ⟨node, hnode⟩ := Option.isSome_iff_exists.mp h
  unfold setPrev
  rw [hnode, Option.map_some, links_update_some, ← Chained.next_eq hnode, update_eq_self]

theorem links_update_of_ne (h : page' ≠ page)
    : (links (update pages page node)).next page' = pages.links.next page'
      ∧ (links (update pages page node)).prev page' = pages.links.prev page' := by
  simp [links, h]

theorem links_unlink (hne : page' ≠ page)
    (hprev : (pages (pages.links.prev page)).isSome) (hnext : (pages (pages.links.next page)).isSome)
    : (pages.unlink page).links.next page' = (pages.links.unlink page).next page'
      ∧ (pages.unlink page).links.prev page' = (pages.links.unlink page).prev page' := by
  have hlinks : (setPrev (setNext pages (pages.links.prev page) (pages.links.next page))
      (pages.links.next page) (pages.links.prev page)).links = pages.links.unlink page := by
    rw [links_setPrev (by rw [isSome_setNext]; exact hnext), links_setNext hprev]
    rfl
  rw [← hlinks]
  exact links_update_of_ne hne

theorem Chained.unlink (h : pages.Chained (l₁ ++ page :: l₂))
    : (pages.unlink page).Chained (l₁ ++ l₂) := by
  have hnodup := h.nodup
  have hzero := h.zero_notMem
  obtain ⟨hbefore, hafter⟩ := Links.path_append.mp h.path
  have hprev : (pages (pages.links.prev page)).isSome := by
    rw [h.exists_iff]
    have hmem := hbefore.prev_mem
    simp only [mem_cons, mem_append] at hmem ⊢
    tauto
  have hnext : (pages (pages.links.next page)).isSome := by
    rw [h.exists_iff]
    have hmem := hafter.next_mem
    simp only [mem_cons, mem_append, not_mem_nil] at hmem ⊢
    tauto
  have hpage : page ∉ 0 :: (l₁ ++ l₂) := by
    intro hmem
    simp only [mem_cons, mem_append] at hmem hzero
    have hmiddle := (nodup_middle.mp (nodup_cons.mp hnodup).2)
    have hnot := (nodup_cons.mp hmiddle).1
    simp only [mem_append] at hnot
    tauto
  have hne : ∀ page', page' ∈ 0 :: (l₁ ++ l₂) → page' ≠ page := by
    rintro page' hmem rfl
    exact hpage hmem
  constructor
  . intro page'
    rw [isSome_unlink]
    split
    . rename_i heq
      simp [heq, hpage]
    rename_i heq
    rw [h.exists_iff]
    simp [heq]
  . apply (h.path.unlink hnodup hzero).congr
    . intro page' hmem
      exact (links_unlink (hne page' hmem) hprev hnext).1
    intro page' hmem
    refine (links_unlink (hne page' ?_) hprev hnext).2
    simp only [mem_cons, mem_append, not_mem_nil] at hmem ⊢
    tauto
  . refine h.ascending.sublist ?_
    simp
  . intro page' hmem
    rw [keysOf_unlink, if_neg (hne page' (mem_cons_of_mem 0 hmem))]
    apply h.nonempty
    simp only [mem_cons, mem_append] at hmem ⊢
    tauto
  intro page'
  rw [keysOf_unlink]
  split
  . simp
  . exact h.small page'

theorem Chained.setKeys (h : pages.Chained l)
    (hnode : pages page = some node) (hnonempty : page ∈ l → keys ≠ [])
    (hsmall : keys.length ≤ dirNodeMaxEntries)
    : Chained (update pages page (some { node with keys })) l := by
  have hlinks : links (update pages page (some { node with keys })) = pages.links := by
    rw [links_update_some, ← next_eq hnode, ← prev_eq hnode, update_eq_self,
      update_eq_self]
  constructor
  . intro page'
    rw [isSome_update, ← h.exists_iff]
    split
    . rename_i heq
      rw [heq, hnode]
      rfl
    . rfl
  . rw [hlinks]
    exact h.path
  . exact h.ascending
  . intro page' hmem
    by_cases heq : page' = page
    . subst heq
      rw [keysOf_update_self]
      exact hnonempty hmem
    rw [keysOf_update_of_ne heq]
    exact h.nonempty page' hmem
  intro page'
  by_cases heq : page' = page
  . subst heq
    rw [keysOf_update_self]
    exact hsmall
  rw [keysOf_update_of_ne heq]
  exact h.small page'

def Rooted (pages : Pages) (order : List UInt64) : Prop :=
  order = [0] → pages.keysOf 0 ≠ []

theorem Chained.eraseRoot (h : pages.Chained []) : Shape (update pages 0 none) [] := by
  constructor
  intro page
  by_cases heq : page = 0
  . subst heq
    exact update_self _ _ _
  rw [update_of_ne heq]
  have hnone := (h.exists_iff page).not.mpr (by simpa using heq)
  simpa using hnone

theorem shape_removed (h : Consistent pages (0 :: l) live) (hchained : pages.Chained l)
    (hkey : key ∈ pages.keysOf page) (hremoved : Removed pages l key page keepRoot pages')
    : ∃ order', pages'.Shape order' ∧ pages'.listing order' = pages'.listing (0 :: l)
      ∧ (keepRoot = false → Rooted pages (0 :: l) → Rooted pages' order') := by
  have hkeys := keysOf_removed h hkey hremoved
  have hmem := h.mem_order hkey
  cases hremoved with
  | edit node_eq stays =>
    have hlength : ∀ keys : List Hash256, (keys.filter (· ≠ key)).length ≤ keys.length :=
      fun keys => length_filter_le _ _
    have hsmall := hchained.small page
    rw [Chained.keysOf_eq node_eq] at hsmall
    refine ⟨0 :: l, .present (hchained.setKeys node_eq ?_ ?_), rfl, ?_⟩
    . intro hpage hempty
      rcases stays with hstays | ⟨rfl, _⟩
      . exact hstays hempty
      . exact hchained.zero_notMem hpage
    . exact Nat.le_trans (hlength _) hsmall
    intro hkeep _ halone
    have hl : l = [] := (cons.inj halone).2
    have hpage : page = 0 := by
      rw [hl] at hmem
      simpa using hmem
    subst hpage
    rw [keysOf_update_self]
    rcases stays with hstays | ⟨_, hne | hkeep'⟩
    . exact hstays
    . exact absurd hl hne
    rw [hkeep] at hkeep'
    cases hkeep'
  | eraseRoot page_eq alone keepRoot_eq empty =>
    subst page_eq alone
    refine ⟨[], hchained.eraseRoot, ?_, fun _ _ hnil => by cases hnil⟩
    simp [listing]
  | unlink page_ne empty stays =>
    have hpage : page ∈ l := (mem_cons.mp hmem).resolve_left page_ne
    obtain ⟨l₁, l₂, rfl⟩ := append_of_mem hpage
    refine ⟨0 :: (l₁ ++ l₂), .present hchained.unlink, ?_, ?_⟩
    . have hdrop : (pages.unlink page).keysOf page = [] := by
        rw [hkeys, empty]
      rw [← cons_append, ← cons_append, listing_drop hdrop]
    intro hkeep _ halone hroot
    have hnil : l₁ = [] ∧ l₂ = [] := by simpa using halone
    obtain ⟨rfl, rfl⟩ := hnil
    obtain ⟨_, hprev, hnext, _⟩ := hchained.path
    rcases stays with hkeep' | hstays
    . rw [hkeep] at hkeep'
      cases hkeep'
    apply hstays
    refine ⟨hnext, hprev, ?_⟩
    rw [keysOf_unlink, if_neg page_ne.symm] at hroot
    exact hroot
  | clear page_ne empty keepRoot_eq clears =>
    have hpage : page ∈ l := (mem_cons.mp hmem).resolve_left page_ne
    obtain ⟨l₁, l₂, rfl⟩ := append_of_mem hpage
    have halone : l₁ = [] ∧ l₂ = [] := by
      obtain ⟨hbefore, hafter⟩ := Links.path_append.mp hchained.path
      have hzero := hchained.zero_notMem
      constructor
      . cases l₁ with
        | nil => rfl
        | cons c l₁ =>
          have hprev := hbefore.2.2.prev_mem
          rw [clears.2.1] at hprev
          exact absurd (mem_append_left _ hprev) hzero
      cases l₂ with
      | nil => rfl
      | cons c l₂ =>
        have hnext := hafter.1
        rw [clears.1] at hnext
        exact absurd (by simp [hnext]) hzero
    obtain ⟨rfl, rfl⟩ := halone
    refine ⟨[], hchained.unlink.eraseRoot, ?_, fun _ _ hnil => by cases hnil⟩
    have hpageKeys : keysOf (update (pages.unlink page) 0 none) page = [] := by
      rw [hkeys, empty]
    simp [listing, hpageKeys]

theorem Consistent.remove (h : Consistent pages order live) (hmem : (key, page) ∈ live)
    (hshape : order = 0 :: l) (hchained : pages.Chained l)
    (hremoved : Removed pages l key page keepRoot pages')
    : ∃ order', Consistent pages' order' (live.filter (·.1 ≠ key))
      ∧ pages'.listing order' = (pages.listing order).filter (· ≠ key)
      ∧ (keepRoot = false → Rooted pages order → Rooted pages' order') := by
  subst hshape
  have hkey := h.located _ hmem
  obtain ⟨order', hshape', hlisting, hrooted⟩ := shape_removed h hchained hkey hremoved
  rw [listing_removed h hkey hremoved] at hlisting
  have hfilter : (live.filter (·.1 ≠ key)).map Prod.fst = (live.map Prod.fst).filter (· ≠ key) := by
    rw [filter_map]
    rfl
  refine ⟨order', ⟨hshape', ?_, ?_, ?_⟩, hlisting, hrooted⟩
  . rw [hlisting, hfilter]
    exact h.items.filter _
  . intro item hitem
    rw [mem_filter, decide_eq_true_eq] at hitem
    rw [keysOf_removed h hkey hremoved, mem_filter, decide_eq_true_eq]
    exact ⟨h.located item hitem.1, hitem.2⟩
  rw [hfilter]
  exact h.distinct.filter _

theorem perm_insertKey (h : insertKey preserveOrder keys key = some keys')
    : keys'.Perm (key :: keys) := by
  unfold insertKey at h
  split at h
  . split at h
    . cases h
    cases h
    exact perm_append_singleton key keys
  dsimp only at h
  split at h
  . cases h
  cases h
  have hpos : (search (sortLedgerKeys keys) key).1
      ≤ (sortLedgerKeys keys).length := findIdx_le_length
  exact (perm_insertIdx key _ hpos).trans ((perm_sortLedgerKeys keys).cons key)

theorem insertKey_append (h : insertKey true keys key = some keys') : keys' = keys ++ [key] := by
  unfold insertKey at h
  rw [if_pos rfl] at h
  split at h
  . cases h
  cases h
  rfl

theorem pairwise_insertKey (hnodup : keys.Nodup) (h : insertKey false keys key = some keys')
    : keys'.Pairwise (· < ·) := by
  have hsorted : (sortLedgerKeys keys).Pairwise (· < ·) := by
    have hne : (sortLedgerKeys keys).Nodup := (perm_sortLedgerKeys keys).nodup_iff.mpr hnodup
    apply ((pairwise_sortLedgerKeys keys).and hne).imp
    rintro a b ⟨hle, hne⟩
    exact Std.lt_of_le_of_ne (Std.not_lt.mp hle) hne
  have hadd : (add (sortLedgerKeys keys) key).Pairwise (· < ·) :=
    pairwise_add hsorted
  unfold add at hadd
  unfold insertKey at h
  simp only [Bool.false_eq_true, if_false] at h
  split at h
  . cases h
  rename_i hfound
  cases h
  rw [if_neg hfound] at hadd
  exact hadd

theorem Chained.last (h : pages.Chained l) (hroot : pages 0 = some root)
    : ∃ before, 0 :: l = before ++ [root.prev] := by
  have hlast := h.path.prev_eq
  rw [prev_eq hroot] at hlast
  obtain ⟨before, hbefore⟩ := getLast?_eq_some_iff.mp hlast
  exact ⟨before, hbefore⟩

theorem lt_add_one (h : page + 1 ≠ 0) : page < page + 1 := by
  have hlt := page.toNat_lt
  rw [Ne, ← UInt64.toNat_inj, UInt64.toNat_add] at h
  change (page.toNat + 1) % 2 ^ 64 ≠ 0 at h
  rw [UInt64.lt_iff_toNat_lt, UInt64.toNat_add]
  change page.toNat < (page.toNat + 1) % 2 ^ 64
  omega

def append (pages : Pages) (last page : UInt64) (key : Hash256) : Pages :=
  Function.update ((pages.setNext last page).setPrev 0 page) page (some ⟨[key], 0, last⟩)

theorem keysOf_append (page' : UInt64)
    : (pages.append last page key).keysOf page' = if page' = page then [key] else pages.keysOf page' := by
  unfold append
  by_cases heq : page' = page
  . subst heq
    rw [keysOf_update_self, if_pos rfl]
    rfl
  . rw [keysOf_update_of_ne heq, keysOf_setPrev, keysOf_setNext, if_neg heq]

theorem Chained.append (h : pages.Chained l) (hroot : pages 0 = some root)
    (hpage : page = root.prev + 1) (hne : page ≠ 0)
    : (pages.append root.prev page key).Chained (l ++ [page]) := by
  obtain ⟨before, hbefore⟩ := h.last hroot
  have hlast : root.prev ∈ 0 :: l := by
    rw [hbefore]
    simp
  have hlt : ∀ page' ∈ 0 :: l, page' < page := by
    have hascending := h.ascending
    rw [hbefore, pairwise_append] at hascending
    intro page' hmem
    rw [hbefore, mem_append, mem_singleton] at hmem
    have hnext : root.prev < page := by
      rw [hpage]
      exact lt_add_one (hpage ▸ hne)
    rcases hmem with hmem | rfl
    . exact UInt64.lt_trans (hascending.2.2 page' hmem root.prev (by simp)) hnext
    . exact hnext
  have hfresh : page ∉ 0 :: l := fun hmem => UInt64.lt_irrefl page (hlt page hmem)
  have hlinks : (pages.append root.prev page key).links = pages.links.linkBefore 0 page := by
    unfold Pages.append Links.linkBefore
    rw [links_update_some, links_setPrev, links_setNext, prev_eq hroot]
    . exact (h.exists_iff root.prev).mpr hlast
    rw [isSome_setNext, hroot]
    rfl
  constructor
  . intro page'
    unfold Pages.append
    rw [isSome_update, isSome_setPrev, isSome_setNext]
    split
    . rename_i heq
      simp [heq]
    rename_i heq
    rw [h.exists_iff]
    simp [heq]
  . rw [hlinks]
    exact h.path.linkBefore h.nodup h.zero_notMem hfresh hne
  . rw [← cons_append, pairwise_append]
    refine ⟨h.ascending, pairwise_singleton _ _, ?_⟩
    intro page' hmem page'' hmem'
    rw [mem_singleton.mp hmem']
    exact hlt page' hmem
  . intro page' hmem
    rw [keysOf_append]
    split
    . simp
    rename_i heq
    apply h.nonempty
    simpa [heq] using hmem
  intro page'
  rw [keysOf_append]
  split
  . change 1 ≤ 32
    omega
  . exact h.small page'

theorem Chained.create (h : ∀ page, pages page = none)
    : Chained (update pages 0 (some ⟨[key], 0, 0⟩)) [] where
  exists_iff page' := by
    rw [isSome_update, h page']
    simp
  path := by
    rw [links_update_some]
    constructor <;> simp
  ascending := pairwise_singleton _ _
  nonempty page' hmem := by cases hmem
  small page' := by
    by_cases heq : page' = 0
    . subst heq
      rw [keysOf_update_self]
      change 1 ≤ 32
      omega
    rw [keysOf_update_of_ne heq]
    unfold keysOf
    rw [h page']
    exact Nat.zero_le _

theorem listing_congr (h : ∀ page ∈ order, pages'.keysOf page = pages.keysOf page)
    : pages'.listing order = pages.listing order := by
  exact flatMap_congr h

structure Grows (pages pages' : Pages) (order order' : List UInt64) (key : Hash256) (page : UInt64)
    (preserveOrder : Bool) : Prop where
  shape : pages'.Shape order'
  others : ∀ page', page' ≠ page → pages'.keysOf page' = pages.keysOf page'
  added : (pages'.keysOf page).Perm (key :: pages.keysOf page)
  items : (pages'.listing order').Perm (key :: pages.listing order)
  appended : preserveOrder = true → pages'.listing order' = pages.listing order ++ [key]
  rooted : Rooted pages' order'
  sorted : preserveOrder = false → (pages'.keysOf page).Pairwise (· < ·)

theorem Grows.create (h : ∀ page, pages page = none)
    : Grows pages (update pages 0 (some ⟨[key], 0, 0⟩)) [] [0] key 0 preserveOrder := by
  have hkeys : pages.keysOf 0 = [] := by
    unfold keysOf
    rw [h 0]
    rfl
  exact {
    shape := .present (.create h)
    others := fun page' hne => keysOf_update_of_ne hne _
    added := by simp [hkeys]
    items := by simp [listing]
    appended := fun _ => by simp [listing]
    rooted := fun _ => by simp
    sorted := fun _ => by simp }

theorem Grows.append (h : pages.Chained l) (hroot : pages 0 = some root)
    (hpage : page = root.prev + 1) (hne : page ≠ 0)
    : Grows pages (pages.append root.prev page key) (0 :: l) (0 :: (l ++ [page])) key page
        preserveOrder := by
  have hchained : (pages.append root.prev page key).Chained (l ++ [page]) :=
    h.append hroot hpage hne
  have hfresh : page ∉ 0 :: l := by
    have hnodup := hchained.nodup
    rw [← cons_append] at hnodup
    intro hmem
    exact (nodup_append.mp hnodup).2.2 page hmem page (by simp) rfl
  have hnone : pages.keysOf page = [] := by
    have hnot := (h.exists_iff page).not.mpr hfresh
    unfold keysOf
    cases hnode : pages page with
    | none => rfl
    | some node =>
      rw [hnode] at hnot
      exact absurd rfl hnot
  have hlisting : (pages.append root.prev page key).listing (0 :: (l ++ [page]))
      = pages.listing (0 :: l) ++ [key] := by
    have hsame : (pages.append root.prev page key).listing (0 :: l) = pages.listing (0 :: l) := by
      apply listing_congr
      intro page' hmem
      rw [keysOf_append, if_neg (fun heq : page' = page => hfresh (heq ▸ hmem))]
    rw [← cons_append, ← hsame]
    simp [listing, keysOf_append]
  exact {
    shape := .present hchained
    others := fun page' hne => by rw [keysOf_append, if_neg hne]
    added := by rw [keysOf_append, if_pos rfl, hnone]
    items := by
      rw [hlisting]
      exact perm_append_singleton _ _
    appended := fun _ => hlisting
    rooted := fun halone => by simp at halone
    sorted := fun _ => by
      rw [keysOf_append, if_pos rfl]
      exact pairwise_singleton _ _ }

theorem Grows.extend (h : pages.Chained l)
    (hnodup : (pages.listing (0 :: l)).Nodup) (hroot : pages 0 = some root)
    (hnode : pages root.prev = some node) (hroom : node.keys.length < dirNodeMaxEntries)
    (hkeys : insertKey preserveOrder node.keys key = some keys)
    : Grows pages (update pages root.prev (some { node with keys })) (0 :: l) (0 :: l) key
        root.prev preserveOrder := by
  obtain ⟨before, hbefore⟩ := h.last hroot
  have hperm := perm_insertKey hkeys
  have hold : pages.keysOf root.prev = node.keys := Chained.keysOf_eq hnode
  have hnew : keysOf (update pages root.prev (some { node with keys })) root.prev = keys :=
    keysOf_update_self _
  have hne : keys ≠ [] := by
    intro hnil
    rw [hnil] at hperm
    exact absurd hperm.length_eq (by simp)
  have hsame : listing (update pages root.prev (some { node with keys })) before
      = pages.listing before := by
    apply listing_congr
    intro page' hmem
    apply keysOf_update_of_ne
    rintro rfl
    have hnodup' := h.nodup
    rw [hbefore] at hnodup'
    exact (nodup_append.mp hnodup').2.2 _ hmem _ (by simp) rfl
  have hlisting : listing (update pages root.prev (some { node with keys })) (0 :: l)
      = pages.listing before ++ keys := by
    rw [hbefore, ← hsame]
    simp [listing]
  have hlisting' : pages.listing (0 :: l) = pages.listing before ++ node.keys := by
    rw [hbefore, ← hold]
    simp [listing]
  exact {
    shape := .present (h.setKeys hnode (fun _ => hne) (by
      rw [hperm.length_eq]
      exact hroom))
    others := fun page' hne => keysOf_update_of_ne hne _
    added := by
      rw [hnew, hold]
      exact hperm
    items := by
      rw [hlisting, hlisting']
      exact (hperm.append_left _).trans perm_middle
    appended := by
      rintro rfl
      rw [hlisting, hlisting', insertKey_append hkeys, append_assoc]
    rooted := by
      intro halone hempty
      have hzero : root.prev = 0 := by
        rw [halone] at hbefore
        have hmem : root.prev ∈ [(0 : UInt64)] := by
          rw [hbefore]
          simp
        exact mem_singleton.mp hmem
      rw [← hzero, hnew] at hempty
      exact hne hempty
    sorted := by
      rintro rfl
      rw [hnew]
      refine pairwise_insertKey ?_ hkeys
      rw [hlisting'] at hnodup
      exact (nodup_append.mp hnodup).2.1 }

theorem Consistent.grows (h : Consistent pages order live)
    (hinserted : Inserted pages key preserveOrder page pages')
    : ∃ order', Grows pages pages' order order' key page preserveOrder := by
  have hexists : ∀ {l : List UInt64}, pages.Chained l → pages 0 ≠ none := by
    intro l hchained hnone
    have hsome := (hchained.exists_iff 0).mpr (by simp)
    rw [hnone] at hsome
    cases hsome
  cases hinserted with
  | create absent page_eq =>
    subst page_eq
    cases h.shape with
    | absent none => exact ⟨[0], .create none⟩
    | present chained => exact absurd absent (hexists chained)
  | extend root_eq page_eq node_eq room keys_eq =>
    subst page_eq
    cases hshape : h.shape with
    | absent none =>
      rw [none 0] at root_eq
      cases root_eq
    | present chained =>
      exact ⟨_, .extend chained h.nodup_listing root_eq node_eq room keys_eq⟩
  | grow root_eq node_eq full page_eq page_ne root'_eq =>
    rename_i root root' node
    cases h.shape with
    | absent none =>
      rw [none 0] at root_eq
      cases root_eq
    | present chained =>
      have hprev : (if page ≠ 1 then root.prev else 0) = root.prev := by
        split
        . rfl
        rename_i hone
        have hone : root.prev + 1 = 0 + 1 := page_eq ▸ not_not.mp hone
        have hzero := congrArg (· - 1) hone
        simp only [UInt64.add_sub_cancel] at hzero
        exact hzero.symm
      have hpages : update (update
          (update pages root.prev (some { node with next := page }))
          0 (some { root' with prev := page }))
          page (some ⟨[key], 0, if page ≠ 1 then root.prev else 0⟩)
            = pages.append root.prev page key := by
        unfold Pages.append Pages.setPrev Pages.setNext
        rw [hprev, node_eq, Option.map_some, root'_eq]
        rfl
      rw [hpages]
      exact ⟨_, .append chained root_eq page_eq page_ne⟩

theorem Consistent.insert (h : Consistent pages order live) (hfresh : key ∉ live.map Prod.fst)
    (hgrows : Grows pages pages' order order' key page preserveOrder)
    : Consistent pages' order' (live ++ [(key, page)]) where
  shape := hgrows.shape
  items := by
    rw [map_append]
    exact hgrows.items.trans ((h.items.cons key).trans (perm_append_singleton _ _).symm)
  located := by
    intro item hitem
    rcases mem_append.mp hitem with hitem | hitem
    . by_cases heq : item.2 = page
      . have hmem := h.located item hitem
        rw [heq] at hmem ⊢
        exact hgrows.added.mem_iff.mpr (mem_cons_of_mem key hmem)
      rw [hgrows.others _ heq]
      exact h.located item hitem
    rw [mem_singleton] at hitem
    subst hitem
    exact hgrows.added.mem_iff.mpr (by simp)
  distinct := by
    rw [map_append, nodup_append]
    refine ⟨h.distinct, by simp, ?_⟩
    rintro a ha b hb rfl
    simp only [map_cons, map_nil, mem_singleton] at hb
    exact hfresh (hb ▸ ha)

end Pages

end State
