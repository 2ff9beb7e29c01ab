import Mathlib.Data.Vector.Basic

/-!
This module contains encodings into lists whose concatenations can be taken apart again.
-/

namespace Framing

variable {α β γ : Type}

def PrefixFree (f : α → List γ) : Prop :=
  ∀ a b s t, f a ++ s = f b ++ t → a = b ∧ s = t

namespace PrefixFree

variable {f : α → List γ}

theorem injective (hf : PrefixFree f) : Function.Injective f := by
  intro a b h
  apply (hf a b [] [] _).left
  rw [h]

theorem of_length (n : Nat) (hlength : ∀ a, (f a).length = n) (hinjective : Function.Injective f)
    : PrefixFree f := by
  intro a b s t h
  have hsplit := List.append_inj h (by rw [hlength, hlength])
  exact ⟨hinjective hsplit.left, hsplit.right⟩

theorem append_injective (hf : PrefixFree f) (hg : Function.Injective g)
    : Function.Injective fun p : α × β => f p.1 ++ g p.2 := by
  intro p q h
  obtain ⟨hfst, hsnd⟩ := hf _ _ _ _ h
  exact Prod.ext hfst (hg hsnd)

theorem flatten_map (hf : PrefixFree f) {l l' : List α}
    (hlength : l.length = l'.length) (h : (l.map f).flatten ++ s = (l'.map f).flatten ++ t)
    : l = l' ∧ s = t := by
  induction l generalizing l' with
  | nil =>
    rw [List.length_nil] at hlength
    rw [List.length_eq_zero_iff.mp hlength.symm] at h ⊢
    exact ⟨rfl, h⟩
  | cons a l ih =>
    cases l' with
    | nil => cases hlength
    | cons b l' =>
      simp only [List.map_cons, List.flatten_cons, List.append_assoc] at h
      obtain ⟨hhead, hrest⟩ := hf _ _ _ _ h
      obtain ⟨htail, hst⟩ := ih (Nat.succ.inj hlength) hrest
      rw [hhead, htail]
      exact ⟨rfl, hst⟩

end PrefixFree

theorem prefixFree_vector (n : Nat) : PrefixFree fun v : Vector γ n => v.toList := by
  apply PrefixFree.of_length n
  . intro v
    exact v.length_toList
  intro v w h
  exact Vector.toList_inj.mp h

end Framing
