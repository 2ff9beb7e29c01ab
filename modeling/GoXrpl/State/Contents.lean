import GoXrpl.State.Impl.View
import GoXrpl.Search.Next

/-!
This module contains what a ledger view stands for: a map from keys to entries.
-/

open State.Write State.LedgerView

namespace State

open Search Program

abbrev Contents (Blob : Type) := Hash256 → Option Blob

variable {Blob : Type}

namespace Contents

structure IsSucc (m : Contents Blob) (key : Hash256) (next : Option (Hash256 × Blob)) : Prop where
  isNext : IsNext (fun k => (m k).isSome) key (next.map Prod.fst)
  entry : ∀ e ∈ next, m e.1 = some e.2

structure Enumerates (m : Contents Blob) (entries : List (Hash256 × Blob)) : Prop where
  nodup : (entries.map Prod.fst).Nodup
  mem_iff : ∀ k data, (k, data) ∈ entries ↔ m k = some data

def EqUpTo {γ : Type} (f : Blob → γ) (m m' : Contents Blob) : Prop :=
  ∀ k, (m k).map f = (m' k).map f

theorem EqUpTo.symm (h : EqUpTo f m₁ m₂)
    : EqUpTo f m₂ m₁ := fun k => (h k).symm

theorem EqUpTo.trans (h : EqUpTo f m₁ m₂) (h' : EqUpTo f m₂ m₃)
    : EqUpTo f m₁ m₃ := fun k => (h k).trans (h' k)

end Contents

namespace Write

def apply (m : Contents Blob) : Write Blob → Contents Blob
  | .insert k data => Function.update m k.key (some data)
  | .update k data => Function.update m k.key (some data)
  | .erase k => Function.update m k.key none
  | .adjustDropsDestroyed _ => m

def applyAll (ws : List (Write Blob)) (m : Contents Blob) : Contents Blob :=
  ws.foldl apply m

def applyDrops (drops : Int64) : Write Blob → Int64
  | .adjustDropsDestroyed amount => drops + amount
  | _ => drops

def applyAllDrops (ws : List (Write Blob)) (drops : Int64) : Int64 :=
  ws.foldl applyDrops drops

-- An insert names a key without an entry.
def Fresh (m : Contents Blob) : Write Blob → Prop
  | .insert k _ => m k.key = none
  | _ => True

def InsertsFresh : List (Write Blob) → Contents Blob → Prop
  | [], _ => True
  | w :: ws, m => w.Fresh m ∧ InsertsFresh ws (apply m w)

def key : Write Blob → Option Hash256
  | .insert k _ => some k.key
  | .update k _ => some k.key
  | .erase k => some k.key
  | .adjustDropsDestroyed _ => none

def Untyped : Write Blob → Prop
  | .insert k _ => k.type = .any
  | .update k _ => k.type = .any
  | .erase k => k.type = .any
  | .adjustDropsDestroyed _ => True

@[simp]
theorem applyAll_nil (m : Contents Blob)
    : applyAll [] m = m := rfl

@[simp]
theorem applyAll_cons (w : Write Blob) (ws : List (Write Blob)) (m : Contents Blob)
    : applyAll (w :: ws) m = applyAll ws (apply m w) := rfl

theorem applyAll_append (ws ws' : List (Write Blob)) (m : Contents Blob)
    : applyAll (ws ++ ws') m = applyAll ws' (applyAll ws m) := by
  unfold applyAll
  rw [List.foldl_append]

theorem apply_of_key_ne (h : w.key ≠ some k) (m : Contents Blob) : apply m w k = m k := by
  cases w with
  | insert k' data => exact Function.update_of_ne (fun heq => h (by rw [heq]; rfl)) _ _
  | update k' data => exact Function.update_of_ne (fun heq => h (by rw [heq]; rfl)) _ _
  | erase k' => exact Function.update_of_ne (fun heq => h (by rw [heq]; rfl)) _ _
  | adjustDropsDestroyed drops => rfl

theorem applyAll_of_key_ne (h : ∀ w ∈ ws, w.key ≠ some k) (m : Contents Blob)
    : applyAll ws m k = m k := by
  induction ws generalizing m with
  | nil => rfl
  | cons w ws ih =>
    rw [applyAll_cons, ih (fun w' hw' => h w' (List.mem_cons_of_mem _ hw'))]
    exact apply_of_key_ne (h w (List.mem_cons_self)) m

end Write

namespace Writer

variable {τ : Type}

-- A body that returns an error, whatever its writes answer
def Fails : Writer Blob → Prop
  | .done err => err ≠ none
  | .write _ next => ∀ err, (next err).Fails

-- The writes of a body that did not fail, in order
def successes (write : Write Blob → τ → Option Error × τ) : Writer Blob → τ → List (Write Blob)
  | .done _, _ => []
  | .write w next, s =>
    let rest := successes write (next (write w s).1) (write w s).2
    if (write w s).1.isNone then w :: rest else rest

variable {write : Write Blob → τ → Option Error × τ}

theorem all_ofList (h : ∀ w ∈ ws, P w) : (ofList ws).All P := by
  induction ws with
  | nil => trivial
  | cons w ws ih =>
    refine ⟨h w List.mem_cons_self, ?_⟩
    intro err
    cases err with
    | none => exact ih fun w' hw' => h w' (List.mem_cons_of_mem _ hw')
    | some err => trivial

theorem run_ne_none_of_fails {body : Writer Blob} (h : body.Fails) (s : τ)
    : (body.run write s).1 ≠ none := by
  induction body generalizing s with
  | done err => exact h
  | write w next ih => exact ih _ (h _) _

theorem successes_ofList (hok : ((ofList ws).run write s).1 = none)
    : (ofList ws).successes write s = ws := by
  induction ws generalizing s with
  | nil => rfl
  | cons w ws ih =>
    unfold ofList run at hok
    unfold ofList successes
    cases hw : (write w s).1 with
    | none =>
      rw [hw] at hok
      simp [ih hok]
    | some err =>
      rw [hw] at hok
      cases hok

theorem run_induction {P : τ → Prop} (hstep : ∀ w s, P s → P (write w s).2) (body : Writer Blob)
    (h : P s)
    : P (body.run write s).2 := by
  induction body generalizing s with
  | done err => exact h
  | write w next ih => exact ih _ (hstep w s h)

theorem run_ofList_induction {P : List (Write Blob) → τ → τ → Prop} (hnil : ∀ s, P [] s s)
    (hcons : ∀ w ws s s', (write w s).1 = none → P ws (write w s).2 s' → P (w :: ws) s s')
    (hok : ((ofList ws).run write s).1 = none)
    : P ws s ((ofList ws).run write s).2 := by
  induction ws generalizing s with
  | nil => exact hnil s
  | cons w ws ih =>
    unfold ofList run at hok ⊢
    cases hw : (write w s).1 with
    | none =>
      rw [hw] at hok
      exact hcons w ws s _ hw (ih hok)
    | some err =>
      rw [hw] at hok
      cases hok

theorem contents_run_ofList {contents : τ → Contents Blob}
    (hstep : ∀ w s, (write w s).1 = none → contents (write w s).2 = w.apply (contents s))
    (hok : ((ofList ws).run write s).1 = none)
    : contents ((ofList ws).run write s).2 = applyAll ws (contents s) := by
  apply run_ofList_induction (P := fun ws s s' => contents s' = applyAll ws (contents s)) _ _ hok
  . exact fun _ => rfl
  intro w ws s s' hw hrest
  rw [hrest, hstep w s hw, applyAll_cons]

theorem drops_run_ofList {drops : τ → Int64}
    (hstep : ∀ w s, (write w s).1 = none → drops (write w s).2 = w.applyDrops (drops s))
    (hok : ((ofList ws).run write s).1 = none)
    : drops ((ofList ws).run write s).2 = applyAllDrops ws (drops s) := by
  apply run_ofList_induction (P := fun ws s s' => drops s' = applyAllDrops ws (drops s)) _ _ hok
  . exact fun _ => rfl
  intro w ws s s' hw hrest
  rw [hrest, hstep w s hw]
  rfl

end Writer

variable [Codec Blob]

def Keylet.Fits (k : Keylet) (m : Contents Blob) : Prop :=
  ∀ data, m k.key = some data → matchesKeyletType k data = true

def Write.Fits (m : Contents Blob) : Write Blob → Prop
  | .insert k _ => k.Fits m
  | .update k _ => k.Fits m
  | .erase k => k.Fits m
  | .adjustDropsDestroyed _ => True

def Writer.Fits {τ : Type} (write : Write Blob → τ → Option Error × τ)
    (contents : τ → Contents Blob) : Writer Blob → τ → Prop
  | .done _, _ => True
  | .write w next, s => w.Fits (contents s) ∧ Fits write contents (next (write w s).1) (write w s).2

def Contents.find (m : Contents Blob) (k : Keylet) : Option Blob :=
  (m k.key).filter (matchesKeyletType k)

variable {σ : Type} [LedgerView Blob σ]

structure MapView (Blob σ : Type) [Codec Blob] [LedgerView Blob σ] where
  contents : σ → Contents Blob
  dropsDestroyed : σ → Int64
  Inv : σ → Prop
  query_inv : ∀ {s} (q : Query), Inv s → Inv (query q s).2
  query_contents : ∀ {s} (q : Query), Inv s → contents (query q s).2 = contents s
  query_drops : ∀ {s} (q : Query), Inv s →
    dropsDestroyed (query q s).2 = dropsDestroyed s
  read_ok : ∀ {s k data}, Inv s → (read k s).1 = .ok data → data = (contents s).find k
  has_ok : ∀ {s k found}, Inv s → k.Fits (contents s) → (has k s).1 = .ok found →
    found = (contents s k.key).isSome
  succ_ok : ∀ {s key next}, Inv s → (succ key s).1 = .ok next →
    (contents s).IsSucc key next
  forEach_ok : ∀ {s entries}, Inv s → (forEach s).1 = .ok entries →
    (contents s).Enumerates entries
  atomically_inv : ∀ {s body}, Inv s → body.All Write.Untyped →
    Inv (applyAtomically body s).2
  atomically_ok : ∀ {s ws}, Inv s → (∀ w ∈ ws, w.Untyped) →
    (applyAtomically (Writer.ofList ws) s).1 = none →
    contents (applyAtomically (Writer.ofList ws) s).2 = applyAll ws (contents s)
  atomically_drops : ∀ {s ws}, Inv s → (∀ w ∈ ws, w.Untyped) →
    (applyAtomically (Writer.ofList ws) s).1 = none →
    dropsDestroyed (applyAtomically (Writer.ofList ws) s).2
      = applyAllDrops ws (dropsDestroyed s)
  atomically_fresh : ∀ {s ws}, Inv s → (∀ w ∈ ws, w.Untyped) →
    (applyAtomically (Writer.ofList ws) s).1 = none →
    Write.InsertsFresh ws (contents s)
  atomically_error : ∀ {s body err}, Inv s → body.All Write.Untyped →
    (applyAtomically body s).1 = some err →
    contents (applyAtomically body s).2 = contents s
      ∧ dropsDestroyed (applyAtomically body s).2 = dropsDestroyed s
  atomically_fails : ∀ {s body}, Inv s → body.Fails →
    (applyAtomically body s).1 ≠ none

structure MapView.Same (view : MapView Blob σ) (s s' : σ) : Prop where
  contents : view.contents s' = view.contents s
  drops : view.dropsDestroyed s' = view.dropsDestroyed s

structure MapView.Reliable (view : MapView Blob σ) : Prop where
  read : ∀ {s} (k : Keylet), view.Inv s → ∃ data, (read k s).1 = .ok data
  has : ∀ {s} (k : Keylet), view.Inv s → ∃ found, (has k s).1 = .ok found
  succ : ∀ {s} (key : Hash256), view.Inv s → ∃ next, (succ key s).1 = .ok next
  forEach : ∀ {s}, view.Inv s → ∃ entries, (forEach s).1 = .ok entries

namespace MapView

variable {view : MapView Blob σ}

theorem Same.refl (view : MapView Blob σ) (s : σ)
    : view.Same s s := ⟨rfl, rfl⟩

theorem Same.trans (h : view.Same s s') (h' : view.Same s' s'')
    : view.Same s s'' := ⟨h'.contents.trans h.contents, h'.drops.trans h.drops⟩

theorem same_query (view : MapView Blob σ) (q : Query) (h : view.Inv s)
    : view.Same s (query q s).2 :=
  ⟨view.query_contents q h, view.query_drops q h⟩

end MapView

variable {k : Keylet}

theorem Keylet.fits_of_any (h : k.type = .any) (m : Contents Blob) : k.Fits m := by
  intro data _
  unfold matchesKeyletType
  rw [h]

theorem Keylet.fits_ofKey (key : Hash256) (m : Contents Blob)
    : (Keylet.ofKey key).Fits m := fits_of_any rfl m

theorem Write.fits_of_untyped {w : Write Blob} (h : w.Untyped) (m : Contents Blob) : w.Fits m := by
  cases w with
  | insert k data => exact Keylet.fits_of_any h m
  | update k data => exact Keylet.fits_of_any h m
  | erase k => exact Keylet.fits_of_any h m
  | adjustDropsDestroyed drops => trivial

theorem Writer.Fits.of_all_untyped {write : Write Blob → τ → Option Error × τ} {body : Writer Blob}
    (h : body.All Write.Untyped) (contents : τ → Contents Blob) (s : τ)
    : body.Fits write contents s := by
  induction body generalizing s with
  | done err => trivial
  | write w next ih => exact ⟨fits_of_untyped h.1 _, ih _ (h.2 _) _⟩

theorem Writer.fits_ofList {write : Write Blob → τ → Option Error × τ} (h : ∀ w ∈ ws, w.Untyped)
    (contents : τ → Contents Blob) (s : τ)
    : (ofList ws).Fits write contents s :=
  Fits.of_all_untyped (all_ofList h) contents s

variable {m : Contents Blob}

theorem Contents.find_of_fits (h : k.Fits m) : m.find k = m k.key := by
  unfold find
  cases hdata : m k.key with
  | none => rfl
  | some data => simp [h data hdata]

theorem Contents.find_eq_some
    : m.find k = some data ↔ m k.key = some data ∧ matchesKeyletType k data = true := by
  unfold find
  rw [Option.filter_eq_some_iff]

theorem Contents.fits_of_find (h : m.find k = some data) (hsame : m' k.key = m k.key)
    : k.Fits m' := by
  intro data' hdata'
  obtain ⟨hdata, hmatches⟩ := find_eq_some.mp h
  rw [hsame, hdata] at hdata'
  cases hdata'
  exact hmatches

theorem Contents.key_ne_of_find (h : m.find k = some data) (h' : m.find k' = some data')
    (htype : k.type = .of type) (htype' : k'.type = .of type') (hne : type ≠ type')
    : k.key ≠ k'.key := by
  intro heq
  obtain ⟨hdata, hmatches⟩ := find_eq_some.mp h
  obtain ⟨hdata', hmatches'⟩ := find_eq_some.mp h'
  rw [heq, hdata'] at hdata
  cases hdata
  unfold matchesKeyletType at hmatches hmatches'
  rw [htype] at hmatches
  rw [htype'] at hmatches'
  apply hne
  cases hdecode : Codec.decodeType data with
  | none => simp [hdecode] at hmatches
  | some entryType =>
    simp only [hdecode, beq_iff_eq] at hmatches hmatches'
    rw [← hmatches, ← hmatches']

structure MapView.Writes (view : MapView Blob σ) : Prop where
  inv : ∀ {s w}, view.Inv s → w.Fits (view.contents s) → view.Inv (write w s).2
  ok : ∀ {s w}, view.Inv s → w.Fits (view.contents s) → (write w s).1 = none →
    view.contents (write w s).2 = w.apply (view.contents s)

structure Stands (view : MapView Blob σ) (m : Contents Blob) (s : σ) : Prop where
  inv : view.Inv s
  contents : view.contents s = m

namespace Stands

variable {s s' : σ}

theorem read (h : Stands view m s) (hrun : (Access.read k).run step s = (.done data, s'))
    : Stands view m s' ∧ data = m.find k := by
  obtain ⟨hanswer, rfl⟩ := Prog.run_ofExcept_done.mp hrun
  constructor
  . exact ⟨view.query_inv (.read k) h.inv, (view.query_contents (.read k) h.inv).trans h.contents⟩
  rw [← h.contents]
  exact view.read_ok h.inv hanswer

theorem write (h : Stands view m s) (hwrites : view.Writes) (hfits : w.Fits m)
    (hrun : (Prog.call (S := accessSig Blob) (.write w) fun (answer : Option Error) =>
      Prog.ofError answer).run step s = (.done u, s'))
    : Stands view (w.apply m) s' := by
  obtain ⟨hanswer, rfl⟩ := Prog.run_ofError_done.mp hrun
  rw [← h.contents] at hfits
  constructor
  . exact hwrites.inv h.inv hfits
  rw [← h.contents]
  exact hwrites.ok h.inv hfits hanswer

theorem update (h : Stands view m s) (hwrites : view.Writes)
    (hfits : k.Fits m) (hrun : (Access.update k data).run step s = (.done u, s'))
    : Stands view (Function.update m k.key (some data)) s' :=
  h.write (w := .update k data) hwrites hfits hrun

end Stands

theorem Keylet.fits_of_find (h : m.find k = some data) : k.Fits m :=
  Contents.fits_of_find h rfl

theorem Contents.find_update_self (m : Contents Blob) (h : matchesKeyletType k data = true)
    : Contents.find (Function.update m k.key (some data)) k = some data := by
  simp [Contents.find, h]

theorem Contents.find_update_of_ne (m : Contents Blob) (h : k'.key ≠ k.key)
    : Contents.find (Function.update m k.key data) k' = m.find k' := by
  simp [Contents.find, h]

end State
