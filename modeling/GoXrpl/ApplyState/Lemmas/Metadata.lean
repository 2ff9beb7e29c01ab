import GoXrpl.ApplyState.Impl.Commit
import GoXrpl.State.Lemmas.OrderedKeys
import Mathlib.Data.List.ReduceOption

open List

namespace ApplyState

open State
open Fallible (bind_eq_ok map_eq_ok)

theorem mem_of_mapM_ok {α β ε : Type} {f : α → Except ε β} {l : List α} {ys : List β}
    (h : l.mapM f = .ok ys) {a : α} (ha : a ∈ l)
    : ∃ y ∈ ys, f a = .ok y := by
  induction l generalizing ys with
  | nil => cases ha
  | cons x l ih =>
    rw [mapM_cons] at h
    obtain ⟨y, hx, h⟩ := bind_eq_ok h
    obtain ⟨ys', hrest, h⟩ := bind_eq_ok h
    cases h
    rcases mem_cons.mp ha with rfl | ha
    . exact ⟨y, mem_cons_self, hx⟩
    obtain ⟨y', hy', hfa⟩ := ih hrest ha
    exact ⟨y', mem_cons_of_mem _ hy', hfa⟩

variable {Blob σ : Type} [Codec Blob]

theorem decodeEntry_ok {entryType : EntryType} {data : Option Blob} {decoded : Blob}
    (h : decodeEntry entryType data = .ok decoded)
    : data = some decoded := by
  unfold decodeEntry at h
  split at h
  . cases h
  split at h
  . cases h
    rfl
  . cases h

theorem buildModifiedNode_ok {key : Hash256} {entry : TrackedEntry Blob} {fix : Bool}
    {node : AffectedNode Blob} (h : buildModifiedNode key entry fix = .ok node)
    : entry.original.isSome := by
  obtain ⟨entryType, _, h⟩ := bind_eq_ok h
  obtain ⟨original, horiginal, _⟩ := bind_eq_ok h
  rw [decodeEntry_ok horiginal, Option.isSome_some]

theorem buildDeletedNode_ok {key : Hash256} {entry : TrackedEntry Blob}
    {node : AffectedNode Blob} (h : buildDeletedNode key entry = .ok node)
    : entry.original.isSome ∧ entry.current.isSome ∧ node.nodeType = .deletedNode
      ∧ node.original = entry.original ∧ node.current = entry.current := by
  obtain ⟨entryType, _, h⟩ := bind_eq_ok h
  obtain ⟨original, horiginal, h⟩ := bind_eq_ok h
  obtain ⟨current, hcurrent, h⟩ := bind_eq_ok h
  cases h
  rw [decodeEntry_ok horiginal, decodeEntry_ok hcurrent]
  exact ⟨rfl, rfl, rfl, rfl, rfl⟩

namespace ApplyStateTable

variable [DecidableEq Blob] {t : ApplyStateTable Blob σ} {metadata : Metadata Blob}
variable {e : TrackedEntry Blob}

variable (hok : t.buildMetadata = .ok metadata) (hlookup : t.items.lookup k = some e)

include hok hlookup

theorem buildNode_of_buildMetadata
    : ∃ node, t.buildNode k = .ok node ∧ ∀ n ∈ node, n ∈ metadata := by
  obtain ⟨nodes, hnodes, hok⟩ := bind_eq_ok hok
  cases hok
  have hk : k ∈ t.sortedItems := by
    apply mem_sortLedgerKeys.mpr
    rw [← AList.mem_keys, ← AList.lookup_isSome, hlookup]
    rfl
  obtain ⟨node, hnode, hbuild⟩ := mem_of_mapM_ok hnodes hk
  refine ⟨node, hbuild, ?_⟩
  intro n hn
  apply mem_append_left
  rw [reduceOption_mem_iff, ← hn]
  exact hnode

theorem original_of_modify (haction : e.action = .modify) (hcurrent : e.current.isSome)
    : e.original.isSome := by
  obtain ⟨node, hbuild, _⟩ := buildNode_of_buildMetadata hok hlookup
  unfold buildNode at hbuild
  rw [hlookup] at hbuild
  simp only [haction] at hbuild
  split at hbuild
  . next hsame =>
    rw [hsame]
    exact hcurrent
  obtain ⟨node, hmodified, _⟩ := map_eq_ok hbuild
  exact buildModifiedNode_ok hmodified

theorem node_of_erase (haction : e.action = .erase)
    : e.original.isSome ∧ e.current.isSome ∧ ∃ node ∈ metadata, node.nodeType = .deletedNode
      ∧ node.original = e.original ∧ node.current = e.current := by
  obtain ⟨node, hbuild, hmem⟩ := buildNode_of_buildMetadata hok hlookup
  unfold buildNode at hbuild
  rw [hlookup] at hbuild
  simp only [haction] at hbuild
  obtain ⟨node', hdeleted, hsome⟩ := map_eq_ok hbuild
  obtain ⟨horiginal, hcurrent, hnode⟩ := buildDeletedNode_ok hdeleted
  exact ⟨horiginal, hcurrent, node', hmem node' hsome.symm, hnode⟩

end ApplyStateTable

end ApplyState
