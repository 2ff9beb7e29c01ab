import GoXrpl.ApplyState.Lemmas.Threading
import GoXrpl.Ledger.Lemmas.Ledger

/-!
This module contains the contract of the table over any view that behaves as a map.
-/

open State.Write

namespace ApplyState

open State

section Contract

variable {Blob σ γ : Type} [Codec Blob] [LedgerView Blob σ]

inductive Op (Blob : Type) where
  | query (q : Query)
  | write (w : Write Blob)
  | applyAtomically (body : Writer Blob)

namespace Op

def step (t : ApplyStateTable Blob σ) : Op Blob → ApplyStateTable Blob σ
  | query q => (LedgerView.query q t).2
  | write w => (t.write w).2
  | applyAtomically body => (t.applyAtomically body).2

def writes (t : ApplyStateTable Blob σ) : Op Blob → List (Write Blob)
  | query _ => []
  | write w => if (t.write w).1.isNone then [w] else []
  | applyAtomically body =>
    if (t.applyAtomically body).1.isNone then body.successes ApplyStateTable.write t else []

def Fits (view : MapView Blob σ) (t : ApplyStateTable Blob σ) : Op Blob → Prop
  | query _ => True
  | write w => w.Fits (t.contents view)
  | applyAtomically body => body.Fits ApplyStateTable.write (ApplyStateTable.contents view) t

end Op

namespace ApplyStateTable

def run (t : ApplyStateTable Blob σ) (ops : List (Op Blob)) : ApplyStateTable Blob σ :=
  ops.foldl Op.step t

def writes (t : ApplyStateTable Blob σ) : List (Op Blob) → List (Write Blob)
  | [] => []
  | op :: ops => op.writes t ++ writes (op.step t) ops

def Fits (view : MapView Blob σ) (t : ApplyStateTable Blob σ) : List (Op Blob) → Prop
  | [] => True
  | op :: ops => op.Fits view t ∧ Fits view (op.step t) ops

structure Shows (t : ApplyStateTable Blob σ) (m : Contents Blob) : Prop where
  read : ∀ k, (t.read k).1 = .ok (m.find k)
  has : ∀ k, k.Fits m → (t.has k).1 = .ok (m k.key).isSome
  forEach : ∃ entries, t.forEach.1 = .ok entries ∧ m.Enumerates entries
  succ : ∀ key, ∃ next, (t.succ key).1 = .ok next ∧ m.IsSucc key next

structure Unchanged (view : MapView Blob σ) (t t' : ApplyStateTable Blob σ) : Prop where
  table : t' = { t with base := t'.base }
  base : view.contents t'.base = view.contents t.base

variable {t : ApplyStateTable Blob σ}

theorem step_moved (h : t.Inv view) (op : Op Blob)
    : Moved view t (op.step t) (op.Fits view t) (applyAll (op.writes t) (t.contents view)) := by
  cases op with
  | query q => exact query_moved h q
  | write w =>
    unfold Op.step Op.writes Op.Fits
    rcases write_moved h w with ⟨err, herr, hmoved⟩ | ⟨hok, hmoved⟩
    . simpa [herr] using hmoved.weaken
    . simpa [hok] using hmoved
  | applyAtomically body =>
    unfold Op.step Op.writes Op.Fits
    rcases applyAtomically_moved h body with ⟨err, herr, hmoved⟩ | ⟨hok, hmoved⟩
    . simpa [herr] using hmoved.weaken
    . simpa [hok] using hmoved

theorem moved_run (h : t.Inv view) (ops : List (Op Blob))
    : Moved view t (t.run ops) (t.Fits view ops)
        (applyAll (t.writes ops) (t.contents view)) := by
  induction ops generalizing t with
  | nil => exact Moved.refl h
  | cons op ops ih =>
    have hstep := step_moved h op
    have hrest := hstep.trans (ih hstep.inv)
    apply hrest.mono id
    intro hcoh hfits
    rw [hstep.contents hcoh hfits.1, writes, applyAll_append]

theorem shows_contents (hreliable : view.Reliable) (h : t.Inv view) (hcoh : t.Coherent view)
    : t.Shows (t.contents view) where
  read := by
    intro k
    obtain ⟨data, hdata⟩ := exists_read_ok hreliable h k
    rw [hdata, read_ok h hdata]
  has := by
    intro k hfits
    obtain ⟨found, hfound⟩ := exists_has_ok hreliable h k
    rw [hfound, has_ok h hfits hfound]
  forEach := by
    obtain ⟨entries, hentries⟩ := exists_forEach_ok hreliable h
    exact ⟨entries, hentries, forEach_ok h hentries⟩
  succ := by
    intro key
    obtain ⟨next, hnext⟩ := exists_succ_ok hreliable h key
    exact ⟨next, hnext, succ_ok h hcoh hnext⟩

variable {base : σ} {txHash : Hash256} {txSeq : UInt32}

theorem viewInv_new (hbase : view.Inv base)
    : (newApplyStateTable base txHash txSeq fix : ApplyStateTable Blob σ).ViewInv view :=
  ⟨inv_new hbase _ _ _, coherent_new view base _ _ _, rfl⟩

theorem ViewInv.run (h : t.ViewInv view) (hfits : t.Fits view ops)
    : (t.run ops).ViewInv view
      ∧ (t.run ops).contents view = applyAll (t.writes ops) (t.contents view) := by
  have hmoved := moved_run h.inv ops
  exact ⟨h.moved hmoved hfits, hmoved.contents h.coherent hfits⟩

variable [DecidableEq Blob]

theorem unchanged_of_adoptIf (hrethreaded : Rethreaded view f t t') (h : t.Inv view)
    (herr : (t.adoptIf t'.applyOrdered).1 = .error err)
    : Unchanged view t (t.adoptIf t'.applyOrdered).2 where
  table := by
    rw [adoptIf_error herr]
  base := by
    rw [adoptIf_fst] at herr
    rw [adoptIf_base, ← hrethreaded.base_contents h.base]
    obtain ⟨_, ⟨_, _, hsame⟩ | ⟨_, hok, _⟩⟩ := applyOrdered_cases (hrethreaded.inv h)
    . exact hsame.contents
    rw [herr] at hok
    cases hok

theorem inv_commit (hrethreaded : Rethreaded view f t t') (h : t.Inv view)
    : view.Inv (t.adoptIf t'.applyOrdered).2.base := by
  rw [adoptIf_base]
  exact (applyOrdered_cases (hrethreaded.inv h)).1

variable [Sha512Half]

structure AtomicOverlay (view : MapView Blob σ) (t : ApplyStateTable Blob σ) (m : Contents Blob)
    : Prop where
  shows : t.Shows m
  applyAtomically_error : ∀ body err, (t.applyAtomically body).1 = some err →
    Unchanged view t (t.applyAtomically body).2
  apply_error : ∀ err, t.apply.1 = .error err → Unchanged view t t.apply.2
  applyUnthreaded_error : ∀ err, t.applyUnthreaded.1 = .error err →
    Unchanged view t t.applyUnthreaded.2
  preview : Unchanged view t t.preview.2
  applyUnthreaded : ∀ metadata, t.applyUnthreaded.1 = .ok metadata →
    view.contents t.applyUnthreaded.2.base = m
  apply : ∀ {γ : Type} (f : Blob → γ), IgnoresThreading f → ∀ metadata, t.apply.1 = .ok metadata →
    Contents.EqUpTo f (view.contents t.apply.2.base) m

theorem atomicOverlay_contents (hreliable : view.Reliable) (h : t.Inv view)
    (hcoh : t.Coherent view) (howners : t.threadOnlyOwners = ∅)
    : AtomicOverlay view t (t.contents view) where
  shows := shows_contents hreliable h hcoh
  applyAtomically_error := by
    intro body err herr
    constructor
    . rw [ApplyStateTable.applyAtomically_error body herr]
    rcases applyAtomically_moved h body with ⟨_, _, hmoved⟩ | ⟨hok, _⟩
    . exact hmoved.base_contents
    rw [herr] at hok
    cases hok
  apply_error := by
    intro err herr
    exact unchanged_of_adoptIf (applyThreading_rethreaded ignoresThreading_trivial t) h herr
  applyUnthreaded_error := by
    intro err herr
    exact unchanged_of_adoptIf (Rethreaded.refl (f := id) t) h herr
  preview := by
    constructor
    . rfl
    . exact (applyThreading_rethreaded ignoresThreading_trivial t).base_contents h.base
  applyUnthreaded := by
    intro metadata hok
    unfold ApplyStateTable.applyUnthreaded at hok ⊢
    rw [adoptIf_fst] at hok
    rw [adoptIf_base]
    funext k
    have hcommit := commit_contents (Rethreaded.refl (f := id) t) h howners hok k
    simpa using hcommit
  apply := by
    intro γ f hf metadata hok
    unfold ApplyStateTable.apply at hok ⊢
    rw [adoptIf_fst] at hok
    rw [adoptIf_base]
    exact commit_contents (applyThreading_rethreaded hf t) h howners hok

theorem ViewInv.atomicOverlay (hreliable : view.Reliable) (h : t.ViewInv view)
    : AtomicOverlay view t (t.contents view) :=
  atomicOverlay_contents hreliable h.inv h.coherent h.owners

structure StacksAs (view : MapView Blob σ) (inner : ApplyStateTable Blob (ApplyStateTable Blob σ))
    (one : ApplyStateTable Blob σ)
    : Prop where
  applyUnthreaded : ∀ md md' md₁, inner.applyUnthreaded.1 = .ok md →
    inner.applyUnthreaded.2.base.applyUnthreaded.1 = .ok md' → one.applyUnthreaded.1 = .ok md₁ →
    view.contents inner.applyUnthreaded.2.base.applyUnthreaded.2.base
      = view.contents one.applyUnthreaded.2.base
  apply : ∀ {γ : Type} (f : Blob → γ), IgnoresThreading f → ∀ md md' md₁, inner.apply.1 = .ok md →
    inner.apply.2.base.apply.1 = .ok md' → one.apply.1 = .ok md₁ →
    Contents.EqUpTo f (view.contents inner.apply.2.base.apply.2.base)
      (view.contents one.apply.2.base)

theorem stacksAs_of_contents_eq (hreliable : view.Reliable)
    {inner : ApplyStateTable Blob (ApplyStateTable Blob σ)} {one : ApplyStateTable Blob σ}
    (hinner : inner.ViewInv (mapView view)) (hone : one.ViewInv view)
    (heq : inner.contents (mapView view) = one.contents view)
    : StacksAs view inner one where
  applyUnthreaded := by
    intro md md' md₁ hok hok' hok₁
    have houter : ViewInv view inner.applyUnthreaded.2.base :=
      inv_commit (Rethreaded.refl (f := id) inner) hinner.inv
    calc view.contents inner.applyUnthreaded.2.base.applyUnthreaded.2.base
        = contents view inner.applyUnthreaded.2.base :=
          (houter.atomicOverlay hreliable).applyUnthreaded md' hok'
      _ = inner.contents (mapView view) :=
          (hinner.atomicOverlay (reliable_mapView hreliable)).applyUnthreaded md hok
      _ = one.contents view := heq
      _ = view.contents one.applyUnthreaded.2.base :=
          ((hone.atomicOverlay hreliable).applyUnthreaded md₁ hok₁).symm
  apply := by
    intro γ f hf md md' md₁ hok hok' hok₁
    have houter : ViewInv view inner.apply.2.base :=
      inv_commit (applyThreading_rethreaded hf inner) hinner.inv
    apply ((houter.atomicOverlay hreliable).apply f hf md' hok').trans
    apply ((hinner.atomicOverlay (reliable_mapView hreliable)).apply f hf md hok).trans
    rw [heq]
    exact ((hone.atomicOverlay hreliable).apply f hf md₁ hok₁).symm

/--
The table is an atomic overlay, and stacking two of them is the same as making the writes that
succeed in one.
-/
theorem run_atomicOverlay (hreliable : view.Reliable) (hbase : view.Inv base) (ops : List (Op Blob))
    (hfits : (newApplyStateTable base txHash txSeq fix).Fits view ops)
    : AtomicOverlay view ((newApplyStateTable base txHash txSeq fix).run ops)
        (applyAll ((newApplyStateTable base txHash txSeq fix).writes ops) (view.contents base))
      ∧ view.contents ((newApplyStateTable base txHash txSeq fix).run ops).base = view.contents base
      ∧ ∀ (txHash' : Hash256) (txSeq' : UInt32) (ops' ops₁ : List (Op Blob)),
        let outer := (newApplyStateTable base txHash txSeq fix).run ops
        (newApplyStateTable outer txHash' txSeq' fix).Fits (mapView view) ops' →
        (newApplyStateTable base txHash txSeq fix).Fits view ops₁ →
        (newApplyStateTable base txHash txSeq fix).writes ops₁
          = (newApplyStateTable base txHash txSeq fix).writes ops
            ++ (newApplyStateTable outer txHash' txSeq' fix).writes ops' →
        StacksAs view ((newApplyStateTable outer txHash' txSeq' fix).run ops')
          ((newApplyStateTable base txHash txSeq fix).run ops₁) := by
  obtain ⟨houter, hcontents⟩ := (viewInv_new hbase).run hfits
  rw [contents_new] at hcontents
  refine ⟨?_, ?_, ?_⟩
  . rw [← hcontents]
    exact houter.atomicOverlay hreliable
  . exact (moved_run (inv_new hbase txHash txSeq fix) ops).base_contents
  intro txHash' txSeq' ops' ops₁ outer hfits' hfits₁ hwrites
  have houter' : (mapView view).Inv outer := houter
  obtain ⟨hinner, hinnerContents⟩ := (viewInv_new houter').run hfits'
  obtain ⟨hone, honeContents⟩ := (viewInv_new hbase).run hfits₁
  rw [contents_new] at hinnerContents honeContents
  apply stacksAs_of_contents_eq hreliable hinner hone
  rw [honeContents, hwrites, applyAll_append, ← hcontents]
  exact hinnerContents

end ApplyStateTable

end Contract

structure Plain where
  type : EntryType
  value : Nat
  previousTxnID : Hash256 := .zero
  previousTxnLgrSeq : UInt32 := 0
  deriving DecidableEq

instance : Codec Plain where
  decodeType e := some e.type
  decodes typ e := typ == e.type
  previousTxnID _ e := .ok (some e.previousTxnID)
  previousTxnLgrSeq _ e := e.previousTxnLgrSeq
  setPreviousTxn _ e txHash seq := some { e with previousTxnID := txHash, previousTxnLgrSeq := seq }
  account _ _ := none
  destination _ _ := none
  lowLimitIssuer _ := none
  highLimitIssuer _ := none

namespace Plain

def key : Hash256 := .zero

-- A ledger with one account root
def ledger : Ledger Plain := .ofEntries [(key, { type := .accountRoot, value := 1 })]

def table {σ : Type} (base : σ) : ApplyStateTable Plain σ :=
  .newApplyStateTable base (.replicate 32 7) 5 true

def ops : List (Op Plain) :=
  [.query (.read (.ofKey key)),
   .write (.update ⟨.of .accountRoot, key⟩ { type := .accountRoot, value := 2 }),
   .applyAtomically (.ofList [.erase (.ofKey key),
     .insert (.ofKey key) { type := .escrow, value := 3 }])]

local instance : Sha512Half where
  sum _ := .zero

open ApplyStateTable

abbrev view : MapView Plain (Ledger Plain) := Ledger.mapView fun _ => none

theorem fits_of_contents {k : Keylet} {e : Plain} (h : m k.key = some e)
    (hmatches : matchesKeyletType k e = true)
    : k.Fits m := by
  intro data hdata
  rw [h] at hdata
  cases hdata
  exact hmatches

def opsInner : List (Op Plain) :=
  [.write (.update (.ofKey key) { type := .escrow, value := 4 })]

theorem fits_ops : (table ledger).Fits view ops := by
  refine ⟨trivial, ?_, ?_, trivial⟩
  . exact fits_of_contents (e := { type := .accountRoot, value := 1 }) (by decide +kernel) (by decide)
  . exact Writer.fits_ofList (by simp [Write.Untyped, Keylet.ofKey]) _ _

theorem fits_opsInner : (table ((table ledger).run ops)).Fits (mapView view) opsInner :=
  ⟨Keylet.fits_ofKey _ _, trivial⟩

theorem fits_ops_append : (table ledger).Fits view (ops ++ opsInner) := by
  refine ⟨trivial, ?_, ?_, ?_, trivial⟩
  . exact fits_of_contents (e := { type := .accountRoot, value := 1 }) (by decide +kernel) (by decide)
  . exact Writer.fits_ofList (by simp [Write.Untyped, Keylet.ofKey]) _ _
  . exact Keylet.fits_ofKey _ _

theorem ops_atomicOverlay
    : view.Reliable ∧ view.Inv ledger ∧ (table ledger).Fits view ops
      ∧ AtomicOverlay view ((table ledger).run ops)
          (applyAll ((table ledger).writes ops) (view.contents ledger))
      ∧ StacksAs view ((table ((table ledger).run ops)).run opsInner)
          ((table ledger).run (ops ++ opsInner)) := by
  have hcontract := run_atomicOverlay Ledger.reliable_mapView (show view.Inv ledger from rfl) ops fits_ops
  refine ⟨Ledger.reliable_mapView, rfl, fits_ops, hcontract.1, ?_⟩
  exact hcontract.2.2 _ _ opsInner (ops ++ opsInner) fits_opsInner fits_ops_append (by decide +kernel)

-- The keylet asks for an escrow, and the key holds an account root.
def opsOfOtherType : List (Op Plain) :=
  [.write (.update ⟨.of .escrow, key⟩ { type := .escrow, value := 2 }),
   .write (.erase ⟨.of .escrow, key⟩)]

def erasure : List (Op Plain) :=
  [.write (.erase (.ofKey key))]

def recreation : List (Op Plain) :=
  [.write (.update (.ofKey key) { type := .accountRoot, value := 2 })]

def inner : ApplyStateTable Plain (ApplyStateTable Plain (Ledger Plain)) :=
  (table ((table ledger).run erasure)).run recreation

def one : ApplyStateTable Plain (Ledger Plain) :=
  (table ledger).run (erasure ++ recreation)

theorem otherType_shows_and_recreation_differs
    : ((table ledger).writes opsOfOtherType).length = 2
      ∧ applyAll ((table ledger).writes opsOfOtherType) ledger.contents key = none
      ∧ (((table ledger).run opsOfOtherType).read (.ofKey key)).1.toOption
          = some (some { type := .accountRoot, value := 1 })
      ∧ ((table ledger).has ⟨.of .escrow, key⟩).1.toOption = some true
      ∧ (((table ledger).read (.ofKey key)).2.has ⟨.of .escrow, key⟩).1.toOption = some false
      ∧ inner.applyUnthreaded.1.toOption.isSome
      ∧ inner.applyUnthreaded.2.base.applyUnthreaded.1.toOption.isSome
      ∧ one.applyUnthreaded.1.toOption.isSome
      ∧ inner.applyUnthreaded.2.base.applyUnthreaded.2.base.contents key
          = some { type := .accountRoot, value := 2 }
      ∧ one.applyUnthreaded.2.base.contents key = none := by
  decide +kernel

end Plain

end ApplyState
