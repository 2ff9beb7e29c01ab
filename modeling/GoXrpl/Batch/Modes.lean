import GoXrpl.Batch.Lemmas.Attempt
import GoXrpl.ApplyState.Lemmas.Program

/-!
This module contains the meaning of the four modes of a batch.
-/

open State ApplyState ApplyStateTable

namespace BatchTx

open Engine Engine.Ter

variable {Blob Tx σ : Type} [Codec Blob] [LedgerView Blob σ]

section Table

variable {α : Type}

theorem Session.run_base {session : Session Blob α} {t : ApplyStateTable Blob σ} (h : t.Inv view)
    : (session.run t).2.Inv view ∧ view.Same t.base (session.run t).2.base := by
  induction session generalizing t with
  | done a => exact ⟨h, .refl _ _⟩
  | query q next ih =>
    have hkept := step_kept h (.query q)
    obtain ⟨hinv, hsame⟩ := ih (LedgerView.query q t).1 hkept.inv
    exact ⟨hinv, hkept.base_same.trans hsame⟩
  | write w next ih =>
    have hkept := step_kept h (.write w)
    obtain ⟨hinv, hsame⟩ := ih (LedgerView.write w t).1 hkept.inv
    exact ⟨hinv, hkept.base_same.trans hsame⟩
  | applyAtomically body next ih =>
    have hkept := step_kept h (.atomically body)
    obtain ⟨hinv, hsame⟩ := ih (LedgerView.applyAtomically body t).1 hkept.inv
    exact ⟨hinv, hkept.base_same.trans hsame⟩

theorem applyInnerWithEngine_base {ctx : ApplyContext Blob Tx (ApplyStateTable Blob σ)}
    (h : ctx.view.Inv view) (innerTx : Tx) (i : UInt32)
    : (applyInnerWithEngine ctx innerTx i).2.view.Inv view
      ∧ view.Same ctx.view.base (applyInnerWithEngine ctx innerTx i).2.view.base := by
  unfold applyInnerWithEngine
  split
  . exact ⟨h, .refl _ _⟩
  dsimp only
  split
  . exact Session.run_base h
  . exact Session.run_base h

theorem applyAll_base {p : Progress Blob Tx (ApplyStateTable Blob σ)} (h : p.ctx.view.Inv view)
    (innerTxns : List (Option Tx))
    : (applyAll innerTxns p).2.ctx.view.Inv view
      ∧ view.Same p.ctx.view.base (applyAll innerTxns p).2.ctx.view.base := by
  induction innerTxns generalizing p with
  | nil => exact ⟨h, .refl _ _⟩
  | cons innerTx innerTxns ih =>
    cases innerTx with
    | none => exact ⟨h, .refl _ _⟩
    | some innerTx =>
      obtain ⟨hinv, hsame⟩ := applyInnerWithEngine_base h innerTx p.nextIndex
      unfold applyAll
      dsimp only
      split
      . exact ⟨hinv, hsame⟩
      obtain ⟨hinv', hsame'⟩ := ih (p := ⟨_, _⟩) hinv
      exact ⟨hinv', hsame.trans hsame'⟩

end Table

section Modes

variable {ctx : ApplyContext Blob Tx σ}

structure Runs (view : MapView Blob σ) (effect : Effect Blob Tx) (ctx : ApplyContext Blob Tx σ)
    : Prop where
  inv : view.Inv ctx.view
  lawful : effect.Lawful
  onView : Realizes view ctx.innerTransactionEngine ctx.txHash effect
  onTable : Realizes (ApplyStateTable.mapView view) ctx.innerTransactionEngine ctx.txHash effect

/--
The view after the transactions of a list of records. Amounts of drops below zero do not reach a
ledger; with them, a table commits none at all.
-/
structure IsFold (view : MapView Blob σ) (effect : Effect Blob Tx) (s s' : σ)
    (rs : List (AppliedInnerTransaction Blob Tx))
    : Prop where
  contents : view.contents s' = (effect.fold (view.contents s) rs).1
  drops : 0 ≤ (effect.fold (view.contents s) rs).2 →
    view.dropsDestroyed s' = view.dropsDestroyed s + (effect.fold (view.contents s) rs).2

theorem Runs.ready (h : Runs view effect ctx)
    : Ready view effect ctx := ⟨h.inv, h.onView⟩

/--
The batch on the table that `AllOrNothing` lays over the view.
-/
def overlaid (ctx : ApplyContext Blob Tx σ) : Progress Blob Tx (ApplyStateTable Blob σ) where
  ctx := { ctx with
    view := newApplyStateTable ctx.view ctx.txHash ctx.ledgerSequence ctx.fixPreviousTxnID
    cause := none }

def staged (ctx : ApplyContext Blob Tx σ) (innerTxns : List (Option Tx)) : ApplyStateTable Blob σ :=
  (applyEach false false innerTxns (overlaid ctx)).ctx.view

theorem Runs.overlaid (h : Runs view effect ctx)
    : Ready (mapView view) effect (overlaid ctx).ctx
      ∧ (mapView view).contents (BatchTx.overlaid ctx).ctx.view = view.contents ctx.view := by
  refine ⟨⟨⟨?_, ?_, rfl⟩, h.onTable⟩, contents_new view _ _ _ _⟩
  . exact inv_new h.inv _ _ _
  . exact coherent_new view _ _ _ _

def succeeded (view : MapView Blob σ) (effect : Effect Blob Tx) (ctx : ApplyContext Blob Tx σ)
    (innerTxns : List (Option Tx)) : List Bool :=
  effect.outcomes (view.contents ctx.view) (ctx.transactionIndex + 1) innerTxns

def recordsOf (view : MapView Blob σ) (effect : Effect Blob Tx) (ctx : ApplyContext Blob Tx σ)
    (innerTxns : List (Option Tx)) : List (AppliedInnerTransaction Blob Tx) :=
  effect.records (view.contents ctx.view) (ctx.transactionIndex + 1) innerTxns

omit [Codec Blob] [LedgerView Blob σ] in
theorem nextIndex_start (ctx : ApplyContext Blob Tx σ)
    : ({ ctx } : Progress Blob Tx σ).nextIndex = ctx.transactionIndex + 1 := by
  simp [Progress.nextIndex]

theorem Runs.extends (h : Runs view effect ctx) (innerTxns : List (Option Tx))
    : Extends view effect innerTxns (recordsOf view effect ctx innerTxns) { ctx }
        (applyEach false false innerTxns { ctx }) := by
  have hextends := applyEach_extends (p := { ctx }) h.lawful h.ready innerTxns
  rw [nextIndex_start] at hextends
  exact hextends

theorem isFold_of_extends (h : Extends view effect innerTxns new { ctx } p)
    : IsFold view effect ctx.view p.ctx.view p.appliedInners := by
  rw [h.appliedInners]
  exact ⟨h.contents, fun _ => h.drops⟩

structure Recorded (view : MapView Blob σ) (effect : Effect Blob Tx) (ctx : ApplyContext Blob Tx σ)
    (innerTxns : List (Option Tx)) (out : Outcome Blob Tx σ)
    : Prop where
  fold : IsFold view effect ctx.view out.ctx.view out.appliedInners
  order : (out.appliedInners.map fun r => some r.transaction).Sublist innerTxns
  indices : Consecutive (ctx.transactionIndex + 1) out.appliedInners

theorem recorded_of_same (hsame : view.Same ctx.view out.ctx.view) (hnone : out.appliedInners = [])
    : Recorded view effect ctx innerTxns out where
  fold := by
    rw [hnone]
    refine ⟨hsame.contents, fun _ => ?_⟩
    exact hsame.drops.trans (Int64.add_zero _).symm
  order := by simp [hnone]
  indices := by
    rw [hnone]
    trivial

theorem applyEach_recorded (h : Runs view effect ctx) (isOnlyOne isUntilFailure : Bool)
    (innerTxns : List (Option Tx)) (result : Result)
    : Recorded view effect ctx innerTxns
        { result
          appliedInners := (applyEach isOnlyOne isUntilFailure innerTxns { ctx }).appliedInners
          ctx := (applyEach isOnlyOne isUntilFailure innerTxns { ctx }).ctx } := by
  rw [applyEach_stops (p := { ctx }) h.lawful h.ready]
  generalize List.length _ + 1 = n
  have hextends := h.extends (innerTxns.take n)
  have hnew : (applyEach false false (innerTxns.take n) { ctx }).appliedInners = _ :=
    hextends.appliedInners
  refine ⟨isFold_of_extends hextends, ?_, ?_⟩
  . dsimp only
    rw [hnew]
    exact hextends.order.trans (List.take_sublist n innerTxns)
  dsimp only
  rw [hnew, ← nextIndex_start]
  exact hextends.consecutive

variable [DecidableEq Blob]

theorem applyAllOrNothing_undone (h : (applyAll innerTxns (overlaid ctx)).1 = none)
    : (applyAllOrNothing ctx innerTxns).appliedInners = []
      ∧ (applyAllOrNothing ctx innerTxns).ctx.view = (applyAll innerTxns (overlaid ctx)).2.ctx.view.base := by
  unfold applyAllOrNothing overlaid at *
  dsimp only
  rw [h]
  exact ⟨rfl, rfl⟩

theorem applyAllOrNothing_staged
    (h : applyAll innerTxns (overlaid ctx) = (some (), applyEach false false innerTxns (overlaid ctx)))
    : (applyAllOrNothing ctx innerTxns).appliedInners
        = (if (staged ctx innerTxns).applyUnthreaded.1.isOk then
            (applyEach false false innerTxns (overlaid ctx)).appliedInners
          else [])
      ∧ (applyAllOrNothing ctx innerTxns).ctx.view = (staged ctx innerTxns).applyUnthreaded.2.base := by
  unfold applyAllOrNothing staged overlaid at *
  dsimp only
  rw [h]
  dsimp only
  split
  . next hcommitted =>
    rw [hcommitted]
    exact ⟨rfl, rfl⟩
  . next hcommitted =>
    rw [hcommitted]
    exact ⟨rfl, rfl⟩

abbrev applied (flags : UInt32) (innerTxns : List (Option Tx)) (ctx : ApplyContext Blob Tx σ)
    : Outcome Blob Tx σ :=
  Batch.applyInnerTransactions { flags, rawTransactions := innerTxns } ctx

theorem applied_of_cons (innerTx : Option Tx) (innerTxns : List (Option Tx))
    (ctx : ApplyContext Blob Tx σ) (h : flags &&& batchFlagAllOrNothing = 0)
    : applied flags (innerTx :: innerTxns) ctx
        = { result := tesSUCCESS
            appliedInners := (applyEach (flags &&& batchFlagOnlyOne != 0)
              (flags &&& batchFlagUntilFailure != 0) (innerTx :: innerTxns) { ctx }).appliedInners
            ctx := (applyEach (flags &&& batchFlagOnlyOne != 0)
              (flags &&& batchFlagUntilFailure != 0) (innerTx :: innerTxns) { ctx }).ctx } := by
  simp [applied, Batch.applyInnerTransactions, h]

theorem applied_allOrNothing (innerTx : Option Tx) (innerTxns : List (Option Tx))
    (ctx : ApplyContext Blob Tx σ) (h : flags &&& batchFlagAllOrNothing ≠ 0)
    : applied flags (innerTx :: innerTxns) ctx = applyAllOrNothing ctx (innerTx :: innerTxns) := by
  simp [applied, Batch.applyInnerTransactions, h]

theorem recorded_independent (h : Runs view effect ctx) (innerTxns : List (Option Tx))
    : (applied batchFlagIndependent innerTxns ctx).appliedInners = recordsOf view effect ctx innerTxns
      ∧ IsFold view effect ctx.view (applied batchFlagIndependent innerTxns ctx).ctx.view
          (recordsOf view effect ctx innerTxns) := by
  have hextends := h.extends innerTxns
  have hfold := isFold_of_extends hextends
  rw [hextends.appliedInners] at hfold
  cases innerTxns with
  | nil => exact ⟨rfl, hfold⟩
  | cons innerTx innerTxns =>
    rw [applied_of_cons innerTx innerTxns ctx rfl]
    exact ⟨hextends.appliedInners, hfold⟩

theorem stops_applied (h : Runs view effect ctx) (innerTxns : List (Option Tx))
    (hmode : flags &&& batchFlagAllOrNothing = 0)
    : applied flags innerTxns ctx
        = applied batchFlagIndependent (innerTxns.take
            (((succeeded view effect ctx innerTxns).takeWhile fun ok =>
              !(if ok then flags &&& batchFlagOnlyOne != 0
                else flags &&& batchFlagUntilFailure != 0)).length + 1)) ctx := by
  cases innerTxns with
  | nil => rfl
  | cons innerTx innerTxns =>
    have hstops := applyEach_stops (p := { ctx }) h.lawful h.ready
      (flags &&& batchFlagOnlyOne != 0) (flags &&& batchFlagUntilFailure != 0) (innerTx :: innerTxns)
    rw [nextIndex_start] at hstops
    rw [applied_of_cons innerTx innerTxns ctx hmode, hstops, List.take_succ_cons, List.take_succ_cons,
      applied_of_cons innerTx _ ctx rfl]
    rfl

theorem reported_applied {e : Host Blob Tx σ}
    (hrecorded : Recorded view effect ctx innerTxns (applied flags innerTxns ctx))
    (hctx : e.innerContext ctx.txHash metadata = ctx) (hmetadata : outer.metadata = some metadata)
    (hnone : outer.appliedInnerTransactions = [])
    : Consecutive (metadata.transactionIndex + 1)
        (e.applyBatchInnerTransactions { flags, rawTransactions := innerTxns } (some ctx.txHash)
          outer).1.appliedInnerTransactions := by
  have hindex : ctx.transactionIndex = metadata.transactionIndex := by
    rw [← hctx]
    rfl
  have hindices := hrecorded.indices
  rw [hindex] at hindices
  unfold Host.applyBatchInnerTransactions
  rw [hmetadata]
  dsimp only
  rw [hctx]
  split
  . rw [hnone]
    trivial
  split
  . trivial
  split
  . trivial
  . exact hindices

theorem isFold_of_committed {s base : σ} (h : t.ViewInv view) (hsame : view.Same s t.base)
    (hcontents : t.contents view = (effect.fold (view.contents s) rs).1)
    (hdrops : t.drops = (effect.fold (view.contents s) rs).2)
    (hcommitted : ApplyStateTable.Committed view t base)
    : IsFold view effect s base rs where
  contents := by
    rw [← hcontents]
    funext k
    simpa using hcommitted.eqUpTo (.refl (f := id) t) h.inv h.owners k
  drops := by
    intro hnonneg
    rw [hcommitted.dropsDestroyed, hsame.drops, hdrops]
    split
    . rfl
    . next hle =>
      have hzero : (effect.fold (view.contents s) rs).2 = 0 :=
        Int64.le_antisymm (Int64.not_lt.mp hle) hnonneg
      rw [hzero, Int64.add_zero]

theorem applyAllOrNothing_cases (h : Runs view effect ctx) (innerTxns : List (Option Tx))
    : if (succeeded view effect ctx innerTxns).all id && (staged ctx innerTxns).applyUnthreaded.1.isOk then
        (applyAllOrNothing ctx innerTxns).appliedInners = recordsOf view effect ctx innerTxns
        ∧ IsFold view effect ctx.view (applyAllOrNothing ctx innerTxns).ctx.view
            (recordsOf view effect ctx innerTxns)
      else
        view.Same ctx.view (applyAllOrNothing ctx innerTxns).ctx.view
        ∧ (applyAllOrNothing ctx innerTxns).appliedInners = [] := by
  obtain ⟨hready, hcontents⟩ := h.overlaid
  have hindex : (overlaid ctx).nextIndex = ctx.transactionIndex + 1 := nextIndex_start _
  obtain ⟨hinv, hsame⟩ := applyAll_base hready.inv.inv innerTxns
  have hall := applyAll_eq h.lawful hready innerTxns
  have hextends := applyEach_extends h.lawful hready innerTxns
  rw [hcontents, hindex] at hall hextends
  change if (succeeded view effect ctx innerTxns).all id then _ else _ at hall
  cases hoks : (succeeded view effect ctx innerTxns).all id with
  | false =>
    rw [hoks] at hall
    obtain ⟨hnone, hview⟩ := applyAllOrNothing_undone hall
    rw [Bool.false_and, hnone, hview]
    exact ⟨hsame, rfl⟩
  | true =>
    rw [hoks, if_pos rfl] at hall
    obtain ⟨hrecords, hview⟩ := applyAllOrNothing_staged hall
    rw [hall] at hinv hsame
    rw [Bool.true_and, hrecords, hview]
    have hcommit := adoptIf_cases (.refl (f := id) _) hinv
    obtain ⟨_, ⟨err, herr, hsame'⟩ | ⟨metadata, hok, _, hcommitted⟩⟩ := hcommit
    . have herr : (staged ctx innerTxns).applyUnthreaded.1 = .error err := herr
      rw [herr]
      exact ⟨hsame.trans hsame', rfl⟩
    have hok : (staged ctx innerTxns).applyUnthreaded.1 = .ok metadata := hok
    rw [hok]
    refine ⟨hextends.appliedInners, isFold_of_committed hextends.ready.inv hsame ?_ ?_ hcommitted⟩
    . exact hextends.contents.trans (by rw [hcontents]; rfl)
    refine hextends.drops.trans ?_
    rw [hcontents]
    exact Int64.zero_add _

theorem recorded_applied (h : Runs view effect ctx) (innerTxns : List (Option Tx)) (flags : UInt32)
    : Recorded view effect ctx innerTxns (applied flags innerTxns ctx) := by
  cases innerTxns with
  | nil => exact recorded_of_same (.refl _ _) rfl
  | cons innerTx innerTxns =>
    by_cases hmode : flags &&& batchFlagAllOrNothing = 0
    . rw [applied_of_cons innerTx innerTxns ctx hmode]
      exact applyEach_recorded h _ _ _ _
    rw [applied_allOrNothing innerTx innerTxns ctx hmode]
    have hcases := applyAllOrNothing_cases h (innerTx :: innerTxns)
    split at hcases
    . obtain ⟨hrecords, hfold⟩ := hcases
      have hextends := h.extends (innerTx :: innerTxns)
      have hindices := hextends.consecutive
      rw [nextIndex_start] at hindices
      rw [← hrecords] at hfold hindices
      exact ⟨hfold, hrecords ▸ hextends.order, hindices⟩
    . exact recorded_of_same hcases.1 hcases.2

structure Semantics (view : MapView Blob σ) (effect : Effect Blob Tx) (ctx : ApplyContext Blob Tx σ)
    (innerTxns : List (Option Tx))
    : Prop where
  independent : ∀ n, (applied batchFlagIndependent (innerTxns.take n) ctx).appliedInners
    = recordsOf view effect ctx (innerTxns.take n)
  -- The commit of the table with all the effects can fail.
  allOrNothing : ∀ flags : UInt32, flags &&& batchFlagAllOrNothing ≠ 0 →
    if (succeeded view effect ctx innerTxns).all id && (staged ctx innerTxns).applyUnthreaded.1.isOk then
      (applied flags innerTxns ctx).appliedInners
        = (applied batchFlagIndependent innerTxns ctx).appliedInners
      ∧ view.contents (applied flags innerTxns ctx).ctx.view
          = view.contents (applied batchFlagIndependent innerTxns ctx).ctx.view
    else
      view.Same ctx.view (applied flags innerTxns ctx).ctx.view
      ∧ (applied flags innerTxns ctx).appliedInners = []
  -- The whole context is that of a batch that ends with the first success.
  onlyOne : ∀ flags : UInt32, flags &&& batchFlagAllOrNothing = 0 →
    flags &&& batchFlagOnlyOne ≠ 0 → flags &&& batchFlagUntilFailure = 0 →
    applied flags innerTxns ctx
      = applied batchFlagIndependent
          (innerTxns.take (((succeeded view effect ctx innerTxns).takeWhile (!·)).length + 1)) ctx
  untilFailure : ∀ flags : UInt32, flags &&& batchFlagAllOrNothing = 0 →
    flags &&& batchFlagOnlyOne = 0 → flags &&& batchFlagUntilFailure ≠ 0 →
    applied flags innerTxns ctx
      = applied batchFlagIndependent
          (innerTxns.take (((succeeded view effect ctx innerTxns).takeWhile id).length + 1)) ctx
  recorded : ∀ flags : UInt32, Recorded view effect ctx innerTxns (applied flags innerTxns ctx)
  reported : ∀ (flags : UInt32) (e : Host Blob Tx σ) (outer : ApplyResult Blob Tx)
    (metadata : TxMetadata Blob), e.innerContext ctx.txHash metadata = ctx →
    outer.metadata = some metadata → outer.appliedInnerTransactions = [] →
    Consecutive (metadata.transactionIndex + 1)
      (e.applyBatchInnerTransactions { flags, rawTransactions := innerTxns } (some ctx.txHash)
        outer).1.appliedInnerTransactions

theorem semantics_applied (h : Runs view effect ctx) (innerTxns : List (Option Tx))
    : Semantics view effect ctx innerTxns where
  independent n := (recorded_independent h (innerTxns.take n)).1
  allOrNothing := by
    intro flags hmode
    obtain ⟨hrecords, hfold⟩ := recorded_independent h innerTxns
    rw [hrecords, hfold.contents]
    cases innerTxns with
    | nil =>
      split
      . exact ⟨rfl, rfl⟩
      . exact ⟨.refl _ _, rfl⟩
    | cons innerTx innerTxns =>
      rw [applied_allOrNothing innerTx innerTxns ctx hmode]
      have hcases := applyAllOrNothing_cases h (innerTx :: innerTxns)
      split at hcases
      . next hkept =>
        rw [if_pos hkept]
        exact ⟨hcases.1, hcases.2.contents⟩
      . next hundone =>
        rw [if_neg hundone]
        exact hcases
  onlyOne := by
    intro flags hmode hone huntil
    rw [stops_applied h innerTxns hmode, bne_iff_ne.mpr hone, huntil]
    congr 5
    funext ok
    cases ok <;> rfl
  untilFailure := by
    intro flags hmode hone huntil
    rw [stops_applied h innerTxns hmode, bne_iff_ne.mpr huntil, hone]
    congr 5
    funext ok
    cases ok <;> rfl
  recorded := recorded_applied h innerTxns
  reported := by
    intro flags e outer metadata hctx hmetadata hnone
    exact reported_applied (recorded_applied h innerTxns flags) hctx hmetadata hnone

end Modes

namespace Sample

def verdict (found : Bool) (i : UInt32) : ApplyResult Plain Keylet where
  result := if found then tesSUCCESS else tecCLAIM
  applied := true
  metadata := some {
    affectedNodes := []
    transactionIndex := i
    transactionResult := if found then tesSUCCESS else tecCLAIM }

def engine : InnerTransactionEngine Plain Keylet :=
  fun k _ i => .query (.read k) fun reply =>
    .done (verdict (reply.toOption.bind id).isSome i)

def effect : Effect Plain Keylet where
  answer m k i := verdict (m.find k).isSome i
  contents m _ _ := m
  drops _ _ _ := 0

theorem lawful_effect : effect.Lawful where
  applied_of_success _ _ _ _ := rfl
  metadata_of_applied _ _ _ _ := rfl
  contents_of_not_applied _ _ _ h := by cases h
  drops_of_not_applied _ _ _ _ := rfl

theorem realizes_engine {σ : Type} [LedgerView Plain σ] {view : MapView Plain σ}
    (hreliable : view.Reliable) (txHash : Hash256)
    : Realizes view (some engine) txHash effect where
  inv k i h := view.query_inv (.read k) h
  answer := by
    intro s k i h
    obtain ⟨data, hread⟩ := hreliable.read k h
    have hdata := view.read_ok h hread
    change verdict (((LedgerView.read k s).1.toOption.bind id).isSome) i = _
    rw [hread, hdata]
    rfl
  contents k i h := view.query_contents (.read k) h
  drops k i h := (view.query_drops (.read k) h).trans (Int64.add_zero _).symm

def ctx : ApplyContext Plain Keylet (Ledger Plain) where
  view := Plain.ledger
  ledgerSequence := 5
  fixPreviousTxnID := true
  txHash := .replicate 32 7
  transactionIndex := 3
  innerTransactionEngine := some engine

-- The second transaction finds nothing, the third is missing.
def innerTxns : List (Option Keylet) :=
  [some (.ofKey Plain.key), some (.ofKey (.replicate 32 1)), none, some (.ofKey Plain.key)]

theorem runs_engine : Runs Plain.view effect ctx where
  inv := rfl
  lawful := lawful_effect
  onView := realizes_engine Ledger.reliable_mapView _
  onTable := realizes_engine (reliable_mapView Ledger.reliable_mapView) _

-- The two that succeed are kept by a batch of them alone.
theorem innerTxns_semantics
    : Runs Plain.view effect ctx ∧ succeeded Plain.view effect ctx innerTxns = [true, false, false, true]
      ∧ (applied batchFlagAllOrNothing [some (.ofKey Plain.key), some (.ofKey Plain.key)]
          ctx).appliedInners.length = 2
      ∧ Semantics Plain.view effect ctx innerTxns :=
  ⟨runs_engine, by decide +kernel, by decide +kernel, semantics_applied runs_engine innerTxns⟩

end Sample

end BatchTx
