import GoXrpl.ApplyState.Lemmas.Query

open State.LedgerView Program.Prog

namespace ApplyState

open State Program

variable {Blob σ ε α : Type} [Codec Blob] [LedgerView Blob σ]

namespace ApplyStateTable

structure Kept (view : MapView Blob σ) (t t' : ApplyStateTable Blob σ) : Prop where
  inv : t'.Inv view
  base_same : view.Same t.base t'.base
  owners : t'.threadOnlyOwners = t.threadOnlyOwners

structure Queried (view : MapView Blob σ) (t t' : ApplyStateTable Blob σ) : Prop where
  moved : Moved view t t' True (t.contents view)
  tracked : ∀ k, (t'.items.lookup k).filter (·.action ≠ .cache)
    = (t.items.lookup k).filter (·.action ≠ .cache)
  drops : t'.drops = t.drops

variable {t t' t'' : ApplyStateTable Blob σ}

theorem Moved.kept (h : Moved view t t' fits m') : Kept view t t' :=
  ⟨h.inv, h.base_same, h.owners⟩

theorem Kept.trans (h : Kept view t t') (h' : Kept view t' t'') : Kept view t t'' where
  inv := h'.inv
  base_same := h.base_same.trans h'.base_same
  owners := h'.owners.trans h.owners

theorem step_kept (h : t.Inv view) (op : Access Blob) : Kept view t (t.step op).2 := by
  cases op with
  | query q => exact (query_moved h q).kept
  | below q => exact (Moved.query h q).kept
  | write w =>
    rcases write_moved h w with ⟨_, _, hmoved⟩ | ⟨_, hmoved⟩
    . exact hmoved.kept
    . exact hmoved.kept
  | atomically body =>
    rcases applyAtomically_moved h body with ⟨_, _, hmoved⟩ | ⟨_, hmoved⟩
    . exact hmoved.kept
    . exact hmoved.kept

theorem run_kept (h : t.Inv view) (p : TableProg Blob ε α) : Kept view t (p.run step t).2 := by
  have hstep : ∀ (op : Access Blob) t', True → Kept view t t' → Kept view t (t'.step op).2 :=
    fun op t' _ h' => h'.trans (step_kept h'.inv op)
  exact run_induction (P := fun _ => True) hstep (Prog.All.trivial p) ⟨h, .refl _ _, rfl⟩

omit [Codec Blob] in
theorem run_writer_drops {body : Writer Blob} (h : body.All Write.KeepsDrops)
    (t : ApplyStateTable Blob σ)
    : (body.run write t).2.drops = t.drops := by
  induction body generalizing t with
  | done err => rfl
  | write w next ih =>
    unfold Writer.run
    rw [ih _ (h.2 _), write_drops]
    cases w with
    | adjustDropsDestroyed amount => exact absurd h.1 id
    | insert k data => rfl
    | update k data => rfl
    | erase k => rfl

theorem step_drops {op : Access Blob} (hop : op.KeepsDrops) (t : ApplyStateTable Blob σ)
    : (t.step op).2.drops = t.drops := by
  cases op with
  | query q => exact query_drops q t
  | below q => rfl
  | write w =>
    change (t.write w).2.drops = t.drops
    rw [write_drops]
    cases w with
    | adjustDropsDestroyed amount => exact absurd hop id
    | insert k data => rfl
    | update k data => rfl
    | erase k => rfl
  | atomically body =>
    change (t.applyAtomically body).2.drops = t.drops
    cases herr : (t.applyAtomically body).1 with
    | none => rw [(applyAtomically_ok herr).2, run_writer_drops hop]
    | some err => rw [applyAtomically_error body herr]

theorem run_drops {p : TableProg Blob ε α} (hp : p.All Access.KeepsDrops)
    (t : ApplyStateTable Blob σ)
    : (p.run step t).2.drops = t.drops := by
  have hstep : ∀ (op : Access Blob) (t' : ApplyStateTable Blob σ), op.KeepsDrops →
      t'.drops = t.drops → (t'.step op).2.drops = t.drops := by
    intro op t' hop h
    rw [step_drops hop, h]
  exact run_induction (I := fun t' : ApplyStateTable Blob σ => t'.drops = t.drops) hstep hp rfl

theorem Queried.refl (h : t.Inv view) : Queried view t t :=
  ⟨.refl h, fun _ => rfl, rfl⟩

theorem Queried.trans (h : Queried view t t') (h' : Queried view t' t'') : Queried view t t'' where
  moved := by
    apply (h.moved.trans h'.moved).mono
    . exact fun _ => ⟨trivial, trivial⟩
    intro hcoh _
    exact h.moved.contents hcoh trivial
  tracked := fun k => (h'.tracked k).trans (h.tracked k)
  drops := h'.drops.trans h.drops

theorem query_tracked (q : Query) (t : ApplyStateTable Blob σ) (k : Hash256)
    : ((query q t).2.items.lookup k).filter (·.action ≠ .cache)
        = (t.items.lookup k).filter (·.action ≠ .cache) := by
  cases q with
  | read k' =>
    change ((t.read k').2.items.lookup k).filter _ = _
    unfold read
    cases hlookup : t.items.lookup k'.key with
    | some entry =>
      dsimp only
      split
      . rfl
      . split <;> rfl
    | none =>
      dsimp only
      split
      . rfl
      . rfl
      split
      . rfl
      by_cases hk : k = k'.key
      . subst hk
        rw [AList.lookup_insert, hlookup]
        rfl
      . rw [AList.lookup_insert_ne hk]
  | has k' =>
    change ((t.has k').2.items.lookup k).filter _ = _
    unfold has
    split <;> rfl
  | txExists txID => rfl
  | forEach =>
    change (t.forEach.2.items.lookup k).filter _ = _
    unfold forEach
    dsimp only
    split <;> rfl
  | succ key =>
    change ((t.succ key).2.items.lookup k).filter _ = _
    unfold succ
    dsimp only
    split
    . rfl
    . rfl
    split
    . rfl
    . split <;> rfl

theorem query_queried (h : t.Inv view) (q : Query) : Queried view t (query q t).2 :=
  ⟨query_moved h q, query_tracked q t, query_drops q t⟩

theorem runQuery_queried (h : t.Inv view) (p : ViewProg Blob ε α)
    : Queried view t (p.run query t).2 := by
  have hstep : ∀ (q : Query) t', True → Queried view t t' → Queried view t (query q t').2 :=
    fun q t' _ h' => h'.trans (query_queried h'.moved.inv q)
  exact run_induction (P := fun _ => True) hstep (Prog.All.trivial p) (Queried.refl h)

structure At (view : MapView Blob σ) (m₀ m : Contents Blob) (t : ApplyStateTable Blob σ) : Prop where
  viewInv : t.ViewInv view
  base : view.contents t.base = m₀
  contents : t.contents view = m

namespace At

theorem moved (h : At view m₀ m t) (hmoved : Moved view t t' fits m') (hfits : fits)
    : At view m₀ m' t' where
  viewInv := h.viewInv.moved hmoved hfits
  base := hmoved.base_contents.trans h.base
  contents := hmoved.contents h.viewInv.coherent hfits

theorem read (h : At view m₀ m t) (hrun : (Access.read k).run step t = (.done data, t'))
    : At view m₀ m t' ∧ data = m.find k := by
  have hmoved := query_moved h.viewInv.inv (.read k)
  obtain ⟨hanswer, rfl⟩ := run_ofExcept_done.mp hrun
  refine ⟨?_, ?_⟩
  . rw [← h.contents]
    exact ⟨h.viewInv.moved hmoved trivial, hmoved.base_contents.trans h.base,
      hmoved.contents h.viewInv.coherent trivial⟩
  rw [← h.contents]
  exact read_ok h.viewInv.inv hanswer

theorem update (h : At view m₀ m t) (hfits : k.Fits m)
    (hrun : (Access.update k data).run step t = (.done u, t'))
    : At view m₀ (Function.update m k.key (some data)) t'
      ∧ (m₀ k.key ≠ none → m k.key ≠ none) := by
  obtain ⟨hanswer, rfl⟩ := run_ofError_done.mp hrun
  have hok : (t.update k data).1 = none := hanswer
  constructor
  . rcases write_moved h.viewInv.inv (.update k data) with ⟨err, herr, _⟩ | ⟨_, hmoved⟩
    . have herr' : (t.update k data).1 = some err := herr
      rw [hok] at herr'
      cases herr'
    rw [h.contents] at hmoved
    exact h.moved hmoved hfits
  intro hbelow
  unfold ApplyStateTable.update at hok
  rw [← h.contents]
  cases hlookup : t.items.lookup k.key with
  | none =>
    rw [contents_of_lookup_none hlookup, h.base]
    exact hbelow
  | some entry =>
    rw [contents_of_lookup hlookup, TrackedEntry.live]
    rw [hlookup] at hok
    dsimp only at hok
    split at hok
    . cases hok
    . next herase =>
      rw [if_neg herase]
      exact Option.isSome_iff_ne_none.mp ((h.viewInv.inv.tracks _ _ hlookup).current herase)

theorem erase (h : At view m₀ m t) (hfits : k.Fits m)
    (hrun : (Access.erase k).run step t = (.done u, t'))
    : At view m₀ (Function.update m k.key none) t' := by
  obtain ⟨hanswer, rfl⟩ := run_ofError_done.mp hrun
  have hok : (t.erase k).1 = none := hanswer
  rcases write_moved h.viewInv.inv (.erase k) with ⟨err, herr, _⟩ | ⟨_, hmoved⟩
  . have herr' : (t.erase k).1 = some err := herr
    rw [hok] at herr'
    cases herr'
  rw [h.contents] at hmoved
  exact h.moved hmoved hfits

end At

theorem at_new {base : σ} (h : view.Inv base) (txHash : Hash256) (txSeq : UInt32) (fix : Bool)
    : At view (view.contents base) (view.contents base)
        (newApplyStateTable base txHash txSeq fix : ApplyStateTable Blob σ) where
  viewInv := ⟨inv_new h _ _ _, coherent_new view base _ _ _, rfl⟩
  base := rfl
  contents := contents_new view base _ _ _

end ApplyStateTable

end ApplyState
