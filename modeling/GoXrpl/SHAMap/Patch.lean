import GoXrpl.SHAMap.Canonicity
import GoXrpl.SHAMap.Compare

/-!
This module contains that a root hash stands for the contents of its map, and that the differences of
two maps bring the first one to the second.
-/

open List

namespace SHAMap

def DifferenceItem.op (d : DifferenceItem) : Op :=
  match d.secondItem with
  | none => .delete d.key
  | some item => .put d.key item.data

theorem Contents.update_op (m : Contents) {d : DifferenceItem}
    (h : ∀ item ∈ d.secondItem, 12 ≤ item.data.length)
    : m.update d.op = Function.update m d.key (d.secondItem.map Item.data) := by
  unfold DifferenceItem.op
  cases hitem : d.secondItem with
  | none => rfl
  | some item => exact if_pos (h item hitem)

theorem Contents.patch_eq {l : List DifferenceItem}
    (hlong : ∀ key data, m' key = some data → 12 ≤ data.length)
    (hmem : ∀ d ∈ l, m' d.key = d.secondItem.map Item.data)
    (hother : ∀ key ∉ l.map DifferenceItem.key, m key = m' key)
    : (l.map DifferenceItem.op).foldl update m = m' := by
  induction l generalizing m with
  | nil =>
    funext key
    exact hother key not_mem_nil
  | cons d l ih =>
    have hd := hmem d mem_cons_self
    rw [map_cons, foldl_cons, update_op]
    . apply ih fun d hd => hmem d (mem_cons_of_mem _ hd)
      intro key hkey
      by_cases heq : key = d.key
      . rw [heq, hd, Function.update_self]
      rw [Function.update_of_ne heq]
      exact hother key (not_mem_cons_of_ne_of_not_mem heq hkey)
    intro item hitem
    rw [hitem] at hd
    exact hlong _ _ hd

section

variable [Sha512Half] {sm sm' : SHAMap}

namespace Holds

theorem held_iff (h : sm.Holds c m) : sm.Held { key, data } ↔ m key = some data := by
  unfold Held
  rw [h.get_eq, Except.ok.injEq, Option.map_eq_some_iff]
  simp

theorem patch_eq (h : sm.Holds c m) (h' : sm'.Holds c' m') (hexact : Exact l sm.Held sm'.Held)
    : (l.map DifferenceItem.op).foldl Contents.update m = m' := by
  apply Contents.patch_eq fun _ _ => h'.length_le
  . intro d hd
    cases (hexact.mem_iff d).mp hd with
    | removed x hx hnone =>
      apply Option.eq_none_iff_forall_ne_some.mpr
      intro data hdata
      exact hnone _ (h'.held_iff.mpr hdata) rfl
    | added y hy _ => exact h'.held_iff.mp hy
    | modified x y hx hy hkey _ => exact (congrArg m' hkey).trans (h'.held_iff.mp hy)
  intro key hkey
  have hnone : ∀ d, IsDiff sm.Held sm'.Held d → d.key ≠ key := by
    rintro d hd rfl
    exact hkey (mem_map_of_mem ((hexact.mem_iff d).mpr hd))
  cases hm : m key with
  | none =>
    cases hm' : m' key with
    | none => rfl
    | some data =>
      refine absurd rfl (hnone _ (.added _ (h'.held_iff.mpr hm') ?_))
      rintro x hx rfl
      cases hm.symm.trans (h.held_iff.mp hx)
  | some data =>
    cases hm' : m' key with
    | none =>
      refine absurd rfl (hnone _ (.removed _ (h.held_iff.mpr hm) ?_))
      rintro y hy rfl
      cases hm'.symm.trans (h'.held_iff.mp hy)
    | some data' =>
      by_contra hne
      exact hnone _ (.modified _ _ (h.held_iff.mpr hm) (h'.held_iff.mpr hm') rfl
        fun heq => hne (congrArg some heq)) rfl

end Holds

/--
Two maps have the same root hash exactly when they have the same contents.
-/
theorem run_hash_eq_iff (ops ops' : List Op)
    : let sm := (new .state).run ops
      let sm' := (new .state).run ops'
      CollisionFree (sm.root.toNode.preimages ++ sm'.root.toNode.preimages) →
        (sm.hash = sm'.hash ↔ ∀ key, sm.get key = sm'.get key) := by
  intro sm sm' hfree
  obtain ⟨c, h⟩ := (holds_new .state).run ops
  obtain ⟨c', h'⟩ := (holds_new .state).run ops'
  constructor
  . intro hhash key
    unfold SHAMap.hash at hhash
    rw [h.state, h'.state, if_neg nofun, if_neg nofun, Except.ok.injEq, h.repr.root, h'.repr.root]
      at hhash
    rw [h.repr.root, h'.repr.root] at hfree
    have hc := eq_of_hash_rootOf_eq h.repr.canonical.2 h'.repr.canonical.2
      (h.repr.typed.keyed (h.hashesKeys (mapType_run _ _)))
      (h'.repr.typed.keyed (h'.hashesKeys (mapType_run _ _))) hfree hhash
    rw [h.repr.typed.get_eq, h'.repr.typed.get_eq, hc]
  intro hget
  rw [← h.contents_eq h' hget] at h'
  have := h.eq_of_contents h' ((mapType_run _ _).trans (mapType_run _ _).symm)
  simp only [sm, sm', this]

/--
The differences of two maps, made to the first one in any order, give the second one.
-/
theorem run_differences (ops ops' : List Op)
    : let sm := (new .state).run ops
      let sm' := (new .state).run ops'
      CollisionFree (sm.root.toNode.preimages ++ sm'.root.toNode.preimages) →
        ∃ l, (∀ maxCount ≤ 0,
            sm.compareContext sm' maxCount = .ok { differences := l, complete := true })
          ∧ ∀ l' : List DifferenceItem, l'.Perm l → sm.run (l'.map DifferenceItem.op) = sm' := by
  intro sm sm' hfree
  obtain ⟨c, h⟩ := (holds_new .state).run ops
  obtain ⟨c', h'⟩ := (holds_new .state).run ops'
  have hexact := exact_rootDiffs h.repr.typed h'.repr.typed (h.hashesKeys (mapType_run _ _))
    (h'.hashesKeys (mapType_run _ _)) hfree
  refine ⟨rootDiffs c c', ?_, ?_⟩
  . intro maxCount hmax
    have hvalid : sm.state ≠ .invalid ∧ sm'.state ≠ .invalid := by
      rw [h.state, h'.state]
      decide
    rw [compareContext_eq h.repr.typed h'.repr.typed hvalid.1 hvalid.2, if_pos hmax]
  intro l' hperm
  obtain ⟨c'', h''⟩ := h.run (l'.map DifferenceItem.op)
  rw [h.patch_eq h' ⟨(hperm.map _).nodup_iff.mpr hexact.nodup,
    fun d => hperm.mem_iff.trans (hexact.mem_iff d)⟩] at h''
  apply h''.eq_of_contents h'
  rw [mapType_run, mapType_run, mapType_run]

end

namespace Sample

attribute [local instance] sha512Half

theorem run_hash_eq_iff_put
    : first.hash = second.hash ↔ ∀ key, first.get key = second.get key := by
  unfold first second
  apply run_hash_eq_iff
  decide +kernel

theorem run_differences_put
    : ∃ l, (∀ maxCount ≤ 0,
          first.compareContext second maxCount = .ok { differences := l, complete := true })
        ∧ ∀ l' : List DifferenceItem, l'.Perm l → first.run (l'.map DifferenceItem.op) = second := by
  unfold first second
  apply run_differences
  decide +kernel

end Sample

end SHAMap
