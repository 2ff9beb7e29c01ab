import GoXrpl.State.Contents
import GoXrpl.State.Impl.Directory

/-!
This module contains directories as a map from pages to the keys they list, and what may happen to
the entries that store the pages: they are edited in their list and their links, or erased.
-/

open Function

namespace State

variable {Blob : Type} [Codec Blob] [Records Blob]

structure DirectoryNode.Edited (node node' : DirectoryNode) : Prop where
  takerPaysCurrency : node'.takerPaysCurrency = node.takerPaysCurrency
  takerGetsCurrency : node'.takerGetsCurrency = node.takerGetsCurrency
  rest : node'.rest = node.rest
  next : node'.indexNextSet = true
    ∨ node'.indexNext = node.indexNext ∧ node'.indexNextSet = node.indexNextSet
  previous : node'.indexPreviousSet = true
    ∨ node'.indexPrevious = node.indexPrevious ∧ node'.indexPreviousSet = node.indexPreviousSet

namespace DirectoryNode.Edited

theorem refl (node : DirectoryNode) : Edited node node :=
  ⟨rfl, rfl, rfl, .inr ⟨rfl, rfl⟩, .inr ⟨rfl, rfl⟩⟩

theorem trans (h : Edited node node') (h' : Edited node' node'') : Edited node node'' where
  takerPaysCurrency := h'.takerPaysCurrency.trans h.takerPaysCurrency
  takerGetsCurrency := h'.takerGetsCurrency.trans h.takerGetsCurrency
  rest := h'.rest.trans h.rest
  next := by
    rcases h'.next with hset | ⟨hnext, hset⟩
    . exact .inl hset
    rw [hnext, hset]
    exact h.next
  previous := by
    rcases h'.previous with hset | ⟨hprevious, hset⟩
    . exact .inl hset
    rw [hprevious, hset]
    exact h.previous

theorem setIndexes (node : DirectoryNode) (indexes : List Hash256)
    : Edited node { node with indexes } :=
  ⟨rfl, rfl, rfl, .inr ⟨rfl, rfl⟩, .inr ⟨rfl, rfl⟩⟩

theorem setIndexNext (h : Edited node node') (page : UInt64)
    : Edited node (node'.setIndexNext page) :=
  ⟨h.takerPaysCurrency, h.takerGetsCurrency, h.rest, .inl rfl, h.previous⟩

theorem setIndexPrevious (h : Edited node node') (page : UInt64)
    : Edited node (node'.setIndexPrevious page) :=
  ⟨h.takerPaysCurrency, h.takerGetsCurrency, h.rest, h.next, .inl rfl⟩

end DirectoryNode.Edited

namespace Contents

def dirKeylet (k : Hash256) : Keylet where
  type := .of .directoryNode
  key := k

def Holds (m : Contents Blob) (k : Hash256) (node : DirectoryNode) : Prop :=
  ∃ data, m.find (dirKeylet k) = some data ∧ Records.parseDirectoryNode data = some node

def listed (m : Contents Blob) (k : Hash256) : List Hash256 :=
  ((m.find (dirKeylet k)).bind Records.parseDirectoryNode).elim [] (·.indexes)

def PagesSurvive (m : Contents Blob) : Prop :=
  ∀ k node node' (data' : Blob), m.Holds k node → node.Edited node' →
    Records.serializeDirectoryNode node' node'.isBookDir = some data' →
    Records.parseDirectoryNode data' = some node' ∧ Codec.decodeType data' = some .directoryNode

structure PagesKept (IsPage : Hash256 → Prop) (m₀ m : Contents Blob) : Prop where
  frame : ∀ k, ¬ IsPage k → m k = m₀ k
  page : ∀ k, m k = m₀ k ∨ (m k = none ∧ ∃ node, m₀.Holds k node)
    ∨ ∃ node node', m₀.Holds k node ∧ m.Holds k node' ∧ node.Edited node'

variable {m m₀ : Contents Blob}

theorem Holds.listed (h : m.Holds k node) : m.listed k = node.indexes := by
  obtain ⟨data, hdata, hnode⟩ := h
  unfold Contents.listed
  rw [hdata, Option.bind_some, hnode]
  rfl

theorem Holds.unique (h : m.Holds k node) (h' : m.Holds k node') : node = node' := by
  obtain ⟨data, hdata, hnode⟩ := h
  obtain ⟨data', hdata', hnode'⟩ := h'
  rw [hdata] at hdata'
  cases hdata'
  rw [hnode] at hnode'
  exact Option.some.inj hnode'

omit [Records Blob] in
theorem find_congr (h : m k = m₀ k) : m.find (dirKeylet k) = m₀.find (dirKeylet k) := by
  unfold find dirKeylet
  rw [h]

theorem Holds.congr (h : m k = m₀ k) (hholds : m₀.Holds k node) : m.Holds k node := by
  unfold Holds
  rw [find_congr h]
  exact hholds

theorem listed_congr (h : m k = m₀ k) : m.listed k = m₀.listed k := by
  unfold listed
  rw [find_congr h]

theorem listed_of_none (h : m k = none) : m.listed k = [] := by
  unfold listed find dirKeylet
  rw [h]
  rfl

theorem Holds.ne_none (h : m.Holds k node) : m k ≠ none := by
  obtain ⟨data, hdata, _⟩ := h
  have hk : m k = some data := (find_eq_some.mp hdata).1
  rw [hk]
  exact Option.some_ne_none data

theorem Holds.fits (h : m.Holds k node) : (dirKeylet k).Fits m := by
  obtain ⟨data, hdata, _⟩ := h
  obtain ⟨hk, hmatches⟩ := find_eq_some.mp hdata
  intro data' hdata'
  rw [hk] at hdata'
  cases hdata'
  exact hmatches

theorem not_holds_of_find (h : m.find k = some data)
    (htype : k.type = .of type) (hne : type ≠ .directoryNode)
    : ∀ node, ¬ m.Holds k.key node := by
  rintro node ⟨data', hdata', _⟩
  exact key_ne_of_find h hdata' htype rfl hne rfl

theorem listed_update_of_ne (h : k' ≠ k) (o : Option Blob)
    : listed (update m k o) k' = m.listed k' :=
  listed_congr (update_of_ne h o m)

theorem listed_update (m : Contents Blob) (k : Hash256) (o : Option Blob)
    : listed (update m k o)
        = update m.listed k (listed (update m k o) k) := by
  funext k'
  by_cases hk : k' = k
  . subst hk
    rw [update_self]
  . rw [update_of_ne hk, listed_update_of_ne hk]

theorem listed_erase (k : Hash256) : listed (update m k none) k = [] :=
  listed_of_none (update_self k none m)

theorem Holds.erase (h : m.Holds k node) (hpresent : update m k' none k ≠ none)
    : Holds (update m k' none) k node := by
  have hne : k ≠ k' := by
    rintro rfl
    rw [update_self] at hpresent
    exact hpresent rfl
  exact h.congr (update_of_ne hne none m)

theorem listed_erase_of_empty (h : m.listed k = []) (k' : Hash256)
    : listed (update m k' none) k = [] := by
  by_cases hk : k = k'
  . subst hk
    exact listed_erase k
  . rw [listed_update_of_ne hk, h]

theorem holds_update (hparse : Records.parseDirectoryNode data = some node)
    (htype : Codec.decodeType data = some .directoryNode)
    : Holds (update m k (some data)) k node := by
  refine ⟨data, ?_, hparse⟩
  rw [find_eq_some]
  refine ⟨update_self k _ m, ?_⟩
  unfold matchesKeyletType dirKeylet
  simp [htype]

namespace PagesKept

theorem refl (IsPage : Hash256 → Prop) (m : Contents Blob) : PagesKept IsPage m m :=
  ⟨fun _ _ => rfl, fun _ => .inl rfl⟩

variable (h : PagesKept IsPage m₀ m)

include h

theorem edited (hholds : m.Holds k node') : ∃ node, m₀.Holds k node ∧ node.Edited node' := by
  rcases h.page k with hsame | ⟨hnone, _⟩ | ⟨node, node'', hnode, hnode'', hedited⟩
  . exact ⟨node', hholds.congr hsame.symm, .refl node'⟩
  . exact absurd hnone hholds.ne_none
  rw [hholds.unique hnode'']
  exact ⟨node, hnode, hedited⟩

theorem fits (hholds : m₀.Holds k node) : (dirKeylet k).Fits m := by
  rcases h.page k with hsame | ⟨hnone, _⟩ | ⟨_, node', _, hnode', _⟩
  . exact (hholds.congr hsame).fits
  . intro data hdata
    have hdata' : m k = some data := hdata
    rw [hnone] at hdata'
    cases hdata'
  . exact hnode'.fits

theorem eq_of_not_holds (hnot : ∀ node, ¬ m₀.Holds k node) : m k = m₀ k := by
  rcases h.page k with hsame | ⟨_, node, hnode⟩ | ⟨node, _, hnode, _⟩
  . exact hsame
  . exact absurd hnode (hnot node)
  . exact absurd hnode (hnot node)

theorem erase (hpage : IsPage k) (hholds : m₀.Holds k node)
    : PagesKept IsPage m₀ (update m k none) where
  frame := by
    intro k' hk'
    have hne : k' ≠ k := fun heq => hk' (heq ▸ hpage)
    rw [update_of_ne hne]
    exact h.frame k' hk'
  page := by
    intro k'
    by_cases hk' : k' = k
    . subst hk'
      exact .inr (.inl ⟨update_self k' none m, node, hholds⟩)
    rw [update_of_ne hk']
    rcases h.page k' with hsame | hnone | ⟨node, node', hnode, hnode', hedited⟩
    . exact .inl hsame
    . exact .inr (.inl hnone)
    exact .inr (.inr ⟨node, node', hnode, hnode'.congr (update_of_ne hk' none m),
      hedited⟩)

theorem write (hsurvive : m₀.PagesSurvive) (hpage : IsPage k)
    (hholds : m.Holds k node) (hedited : node.Edited node')
    (hdata : Records.serializeDirectoryNode node' node'.isBookDir = some data)
    : PagesKept IsPage m₀ (update m k (some data))
      ∧ Holds (update m k (some data)) k node' := by
  obtain ⟨node₀, hnode₀, hedited₀⟩ := h.edited hholds
  obtain ⟨hparse, htype⟩ := hsurvive k node₀ node' data hnode₀ (hedited₀.trans hedited) hdata
  have hwritten : Holds (update m k (some data)) k node' := holds_update hparse htype
  refine ⟨⟨?_, ?_⟩, hwritten⟩
  . intro k' hk'
    have hne : k' ≠ k := fun heq => hk' (heq ▸ hpage)
    rw [update_of_ne hne]
    exact h.frame k' hk'
  intro k'
  by_cases hk' : k' = k
  . subst hk'
    exact .inr (.inr ⟨node₀, node', hnode₀, hwritten, hedited₀.trans hedited⟩)
  rw [update_of_ne hk']
  rcases h.page k' with hsame | hnone | ⟨node, node', hnode, hnode', hedited⟩
  . exact .inl hsame
  . exact .inr (.inl hnone)
  . exact .inr (.inr ⟨node, node', hnode, hnode'.congr (update_of_ne hk' _ m), hedited⟩)

end PagesKept

end Contents

end State
