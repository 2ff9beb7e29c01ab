import GoXrpl.Batch.Impl.Batch
import GoXrpl.ApplyState.Overlay

open State ApplyState List Option UInt32

namespace BatchTx

open Engine Engine.Ter

variable {Blob Tx σ : Type}

structure Effect (Blob Tx : Type) where
  answer : Contents Blob → Tx → UInt32 → ApplyResult Blob Tx
  contents : Contents Blob → Tx → UInt32 → Contents Blob
  drops : Contents Blob → Tx → UInt32 → Int64

namespace Effect

structure Lawful (effect : Effect Blob Tx) : Prop where
  applied_of_success : ∀ m tx i, isSuccess (effect.answer m tx i).result = true →
    (effect.answer m tx i).applied = true
  metadata_of_applied : ∀ m tx i, (effect.answer m tx i).applied = true →
    (effect.answer m tx i).metadata.map TxMetadata.transactionIndex = some i
  contents_of_not_applied : ∀ m tx i, (effect.answer m tx i).applied = false →
    effect.contents m tx i = m
  drops_of_not_applied : ∀ m tx i, (effect.answer m tx i).applied = false → effect.drops m tx i = 0

def record (effect : Effect Blob Tx) (m : Contents Blob) (innerTx : Option Tx) (i : UInt32)
    : List (AppliedInnerTransaction Blob Tx) :=
  innerTx.elim [] fun tx =>
    if (effect.answer m tx i).applied then
      [{ transaction := tx, metadata := (effect.answer m tx i).metadata }]
    else
      []

def succeeds (effect : Effect Blob Tx) (m : Contents Blob) (innerTx : Option Tx) (i : UInt32) : Bool :=
  innerTx.elim false fun tx => isSuccess (effect.answer m tx i).result

def after (effect : Effect Blob Tx) (m : Contents Blob) (innerTx : Option Tx) (i : UInt32)
    : Contents Blob :=
  innerTx.elim m (effect.contents m · i)

def nextIndex (effect : Effect Blob Tx) (m : Contents Blob) (innerTx : Option Tx) (i : UInt32) : UInt32 :=
  i + ofNat (effect.record m innerTx i).length

/--
Which of the transactions succeed when each is attempted on the contents that the ones before it left.
-/
def outcomes (effect : Effect Blob Tx) : Contents Blob → UInt32 → List (Option Tx) → List Bool
  | _, _, [] => []
  | m, i, innerTx :: innerTxns =>
    effect.succeeds m innerTx i
      :: effect.outcomes (effect.after m innerTx i) (effect.nextIndex m innerTx i) innerTxns

def records (effect : Effect Blob Tx)
    : Contents Blob → UInt32 → List (Option Tx) → List (AppliedInnerTransaction Blob Tx)
  | _, _, [] => []
  | m, i, innerTx :: innerTxns =>
    effect.record m innerTx i
      ++ effect.records (effect.after m innerTx i) (effect.nextIndex m innerTx i) innerTxns

def replay (effect : Effect Blob Tx) (state : Contents Blob × Int64)
    (r : AppliedInnerTransaction Blob Tx)
    : Contents Blob × Int64 :=
  match r.metadata with
  | none => state
  | some metadata =>
    let i := metadata.transactionIndex
    (effect.contents state.1 r.transaction i, state.2 + effect.drops state.1 r.transaction i)

def fold (effect : Effect Blob Tx) (m : Contents Blob) (rs : List (AppliedInnerTransaction Blob Tx))
    : Contents Blob × Int64 :=
  rs.foldl effect.replay (m, 0)

variable {effect : Effect Blob Tx}

theorem replay_eq (m : Contents Blob) (drops : Int64) (r : AppliedInnerTransaction Blob Tx)
    : effect.replay (m, drops) r
        = ((effect.replay (m, 0) r).1, drops + (effect.replay (m, 0) r).2) := by
  unfold replay
  cases r.metadata with
  | none => simp
  | some metadata => simp

theorem foldl_replay (m : Contents Blob) (drops : Int64) (rs : List (AppliedInnerTransaction Blob Tx))
    : rs.foldl effect.replay (m, drops) = ((effect.fold m rs).1, drops + (effect.fold m rs).2) := by
  unfold fold
  induction rs generalizing m drops with
  | nil => simp
  | cons r rs ih =>
    rw [foldl_cons, foldl_cons, replay_eq, ih, replay_eq m 0, ih _ (0 + _)]
    simp [Int64.add_assoc]

theorem fold_append (m : Contents Blob) (rs rs' : List (AppliedInnerTransaction Blob Tx))
    : effect.fold m (rs ++ rs')
        = ((effect.fold (effect.fold m rs).1 rs').1,
            (effect.fold m rs).2 + (effect.fold (effect.fold m rs).1 rs').2) := by
  conv_lhs => unfold fold
  rw [foldl_append]
  exact foldl_replay _ _ rs'

theorem fold_record (h : effect.Lawful) (m : Contents Blob) (tx : Tx) (i : UInt32)
    : effect.fold m (effect.record m (some tx) i) = (effect.contents m tx i, effect.drops m tx i) := by
  unfold record
  dsimp only [elim_some]
  cases happlied : (effect.answer m tx i).applied with
  | false =>
    rw [h.contents_of_not_applied m tx i happlied, h.drops_of_not_applied m tx i happlied]
    rfl
  | true =>
    obtain ⟨metadata, hmetadata, hindex⟩ :=
      map_eq_some_iff.mp (h.metadata_of_applied m tx i happlied)
    simp [fold, replay, hmetadata, hindex]

end Effect

def Consecutive : UInt32 → List (AppliedInnerTransaction Blob Tx) → Prop
  | _, [] => True
  | i, r :: rs => r.metadata.map TxMetadata.transactionIndex = some i ∧ Consecutive (i + 1) rs

theorem Consecutive.append (h : Consecutive i rs) (h' : Consecutive (i + ofNat rs.length) rs')
    : Consecutive i (rs ++ rs') := by
  induction rs generalizing i with
  | nil => simpa using h'
  | cons r rs ih =>
    refine ⟨h.1, ih h.2 ?_⟩
    have hindex : i + 1 + ofNat rs.length = i + ofNat (r :: rs).length := by
      rw [length_cons, UInt32.ofNat_add, UInt32.add_comm (UInt32.ofNat rs.length)]
      exact UInt32.add_assoc _ _ _
    rw [hindex]
    exact h'

/--
The session of an inner transaction. Without an engine none is applied.
-/
def session (engine : Option (InnerTransactionEngine Blob Tx)) (txHash : Hash256) (tx : Tx) (i : UInt32)
    : Session Blob (ApplyResult Blob Tx) :=
  engine.elim (.done { result := tefINTERNAL, applied := false }) fun engine => engine tx txHash i

variable [LedgerView Blob σ]

theorem applyInnerWithEngine_eq (ctx : ApplyContext Blob Tx σ) (innerTx : Tx) (i : UInt32)
    : applyInnerWithEngine ctx innerTx i
        = let answer := (session ctx.innerTransactionEngine ctx.txHash innerTx i).run ctx.view
          ((answer.1.result, if answer.1.applied then answer.1.metadata else none),
            { ctx with view := answer.2, cause := ctx.cause.or answer.1.cause }) := by
  unfold applyInnerWithEngine session
  cases hengine : ctx.innerTransactionEngine with
  | none =>
    obtain ⟨view, ledgerSequence, fixPreviousTxnID, txHash, transactionIndex, engine, cause⟩ := ctx
    cases hengine
    simp [Session.run]
  | some engine =>
    dsimp only [elim_some]
    cases ((engine innerTx ctx.txHash i).run ctx.view).1.applied <;> rfl

variable [Codec Blob]

structure Realizes (view : MapView Blob σ) (engine : Option (InnerTransactionEngine Blob Tx))
    (txHash : Hash256) (effect : Effect Blob Tx)
    : Prop where
  inv : ∀ {s} tx i, view.Inv s → view.Inv ((session engine txHash tx i).run s).2
  answer : ∀ {s} tx i, view.Inv s →
    ((session engine txHash tx i).run s).1 = effect.answer (view.contents s) tx i
  contents : ∀ {s} tx i, view.Inv s →
    view.contents ((session engine txHash tx i).run s).2 = effect.contents (view.contents s) tx i
  drops : ∀ {s} tx i, view.Inv s →
    view.dropsDestroyed ((session engine txHash tx i).run s).2
      = view.dropsDestroyed s + effect.drops (view.contents s) tx i

structure Ready (view : MapView Blob σ) (effect : Effect Blob Tx) (ctx : ApplyContext Blob Tx σ)
    : Prop where
  inv : view.Inv ctx.view
  realizes : Realizes view ctx.innerTransactionEngine ctx.txHash effect

structure Extends (view : MapView Blob σ) (effect : Effect Blob Tx) (innerTxns : List (Option Tx))
    (new : List (AppliedInnerTransaction Blob Tx)) (p p' : Progress Blob Tx σ)
    : Prop where
  ready : Ready view effect p'.ctx
  transactionIndex : p'.ctx.transactionIndex = p.ctx.transactionIndex
  appliedInners : p'.appliedInners = p.appliedInners ++ new
  contents : view.contents p'.ctx.view = (effect.fold (view.contents p.ctx.view) new).1
  drops : view.dropsDestroyed p'.ctx.view
    = view.dropsDestroyed p.ctx.view + (effect.fold (view.contents p.ctx.view) new).2
  consecutive : Consecutive p.nextIndex new
  order : (new.map fun r => some r.transaction).Sublist innerTxns

variable {view : MapView Blob σ} {effect : Effect Blob Tx} {p p' p'' : Progress Blob Tx σ}

theorem Extends.refl (h : Ready view effect p.ctx) (innerTxns : List (Option Tx))
    : Extends view effect innerTxns [] p p where
  ready := h
  transactionIndex := rfl
  appliedInners := by simp
  contents := rfl
  drops := by simp [Effect.fold]
  consecutive := trivial
  order := by simp

theorem Extends.nextIndex (h : Extends view effect innerTxns new p p')
    : p'.nextIndex = p.nextIndex + ofNat new.length := by
  unfold Progress.nextIndex
  rw [h.transactionIndex, h.appliedInners, length_append, ofNat_add]
  exact (UInt32.add_assoc _ _ _).symm

theorem Extends.trans (h : Extends view effect innerTxns new p p')
    (h' : Extends view effect innerTxns' new' p' p'')
    : Extends view effect (innerTxns ++ innerTxns') (new ++ new') p p'' where
  ready := h'.ready
  transactionIndex := h'.transactionIndex.trans h.transactionIndex
  appliedInners := by rw [h'.appliedInners, h.appliedInners, append_assoc]
  contents := by rw [h'.contents, h.contents, Effect.fold_append]
  drops := by rw [h'.drops, h.drops, h.contents, Effect.fold_append, Int64.add_assoc]
  consecutive := h.consecutive.append (h.nextIndex ▸ h'.consecutive)
  order := by
    rw [map_append]
    exact h.order.append h'.order

variable (hlawful : effect.Lawful) (h : Ready view effect p.ctx)

include hlawful h

theorem attempt_extends (innerTx : Option Tx)
    : (p.attempt innerTx).1 = effect.succeeds (view.contents p.ctx.view) innerTx p.nextIndex
      ∧ Extends view effect [innerTx]
          (effect.record (view.contents p.ctx.view) innerTx p.nextIndex) p (p.attempt innerTx).2 := by
  cases innerTx with
  | none => exact ⟨rfl, .refl h _⟩
  | some tx =>
    have hrealizes := h.realizes
    have hanswer := hrealizes.answer tx p.nextIndex h.inv
    have hmetadata := hlawful.metadata_of_applied (view.contents p.ctx.view) tx p.nextIndex
    unfold Progress.attempt
    simp only [elim_some, applyInnerWithEngine_eq, hanswer]
    refine ⟨rfl, ⟨hrealizes.inv _ _ h.inv, hrealizes⟩, rfl, ?_, ?_, ?_, ?_, ?_⟩
    . unfold Effect.record
      dsimp only [elim_some]
      split
      . next happlied =>
        obtain ⟨metadata, hsome, _⟩ := map_eq_some_iff.mp (hmetadata happlied)
        simp [hsome]
      . simp
    . rw [Effect.fold_record hlawful]
      exact hrealizes.contents _ _ h.inv
    . rw [Effect.fold_record hlawful]
      exact hrealizes.drops _ _ h.inv
    . unfold Effect.record
      dsimp only [elim_some]
      split
      . next happlied => exact ⟨hmetadata happlied, trivial⟩
      . trivial
    unfold Effect.record
    dsimp only [elim_some]
    split <;> simp

theorem contents_attempt (innerTx : Option Tx)
    : view.contents (p.attempt innerTx).2.ctx.view
        = effect.after (view.contents p.ctx.view) innerTx p.nextIndex := by
  rw [(attempt_extends hlawful h innerTx).2.contents]
  cases innerTx with
  | none => rfl
  | some tx =>
    rw [Effect.fold_record hlawful]
    rfl

/--
A batch that never stops attempts every transaction in turn.
-/
theorem applyEach_extends (innerTxns : List (Option Tx))
    : Extends view effect innerTxns
        (effect.records (view.contents p.ctx.view) p.nextIndex innerTxns) p
        (applyEach false false innerTxns p) := by
  induction innerTxns generalizing p with
  | nil => exact .refl h _
  | cons innerTx innerTxns ih =>
    obtain ⟨_, hattempt⟩ := attempt_extends hlawful h innerTx
    have hrest := ih hattempt.ready
    rw [contents_attempt hlawful h, hattempt.nextIndex, ← Effect.nextIndex] at hrest
    simpa [applyEach, Effect.records] using hattempt.trans hrest

/--
The transactions that a batch attempts: up to and including the first whose outcome stops it.
-/
theorem applyEach_stops (isOnlyOne isUntilFailure : Bool) (innerTxns : List (Option Tx))
    : applyEach isOnlyOne isUntilFailure innerTxns p
        = applyEach false false (innerTxns.take
            (((effect.outcomes (view.contents p.ctx.view) p.nextIndex innerTxns).takeWhile fun ok =>
              !(if ok then isOnlyOne else isUntilFailure)).length + 1)) p := by
  induction innerTxns generalizing p with
  | nil => rfl
  | cons innerTx innerTxns ih =>
    obtain ⟨hok, hattempt⟩ := attempt_extends hlawful h innerTx
    have hrest := ih hattempt.ready
    rw [contents_attempt hlawful h, hattempt.nextIndex, ← Effect.nextIndex] at hrest
    rw [take_succ_cons]
    unfold applyEach Effect.outcomes
    dsimp only
    rw [hok]
    cases effect.succeeds (view.contents p.ctx.view) innerTx p.nextIndex with
    | true => cases isOnlyOne <;> simp [applyEach, hrest]
    | false => cases isUntilFailure <;> simp [applyEach, hrest]

theorem applyAll_eq (innerTxns : List (Option Tx))
    : if (effect.outcomes (view.contents p.ctx.view) p.nextIndex innerTxns).all id then
        applyAll innerTxns p = (some (), applyEach false false innerTxns p)
      else (applyAll innerTxns p).1 = none := by
  induction innerTxns generalizing p with
  | nil => rfl
  | cons innerTx innerTxns ih =>
    obtain ⟨hok, hattempt⟩ := attempt_extends hlawful h innerTx
    have hrest := ih hattempt.ready
    rw [contents_attempt hlawful h, hattempt.nextIndex, ← Effect.nextIndex] at hrest
    unfold Effect.outcomes
    rw [all_cons]
    cases hsucceeds : effect.succeeds (view.contents p.ctx.view) innerTx p.nextIndex with
    | false =>
      rw [hsucceeds] at hok
      cases innerTx with
      | none => rfl
      | some tx =>
        have hfailed : isSuccess (applyInnerWithEngine p.ctx tx p.nextIndex).1.1 = false := hok
        simp [applyAll, hfailed]
    | true =>
      cases innerTx with
      | none => cases hsucceeds
      | some tx =>
        rw [hsucceeds] at hok
        have hsame : applyAll (some tx :: innerTxns) p = applyAll innerTxns (p.attempt (some tx)).2 := by
          have happlied := hlawful.applied_of_success _ _ _ hsucceeds
          obtain ⟨metadata, hmetadata, _⟩ :=
            map_eq_some_iff.mp (hlawful.metadata_of_applied _ _ _ happlied)
          have hsome : (applyInnerWithEngine p.ctx tx p.nextIndex).1.2 = some metadata := by
            rw [applyInnerWithEngine_eq]
            dsimp only
            rw [h.realizes.answer tx p.nextIndex h.inv, if_pos happlied, hmetadata]
          have hok' : isSuccess (applyInnerWithEngine p.ctx tx p.nextIndex).1.1 = true := hok
          simp [applyAll, Progress.attempt, hsome, hok']
        rw [hsame]
        simpa [applyEach] using hrest

end BatchTx
