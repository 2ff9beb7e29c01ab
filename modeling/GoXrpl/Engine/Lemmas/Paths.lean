import GoXrpl.Engine.Lemmas.Commit
import GoXrpl.Engine.Lemmas.Drops
import GoXrpl.Engine.Lemmas.Reports
import GoXrpl.ApplyState.Lemmas.Program

open State ApplyState ApplyStateTable Program Invariants

namespace Engine

open Ter

theorem isApplied_of_isTec (h : isTec result = true) : isApplied result = true := by
  unfold isApplied
  rw [h, Bool.or_true]

variable {Blob σ : Type} [LedgerView Blob σ] {tx : Transaction Blob} {s : Recording σ}
variable {st : ApplyState Blob} {table : ApplyStateTable Blob (Recording σ)}

theorem getFeePayer_own [Sha512Half] (hown : tx.PaysOwnFee) (s : Recording σ)
    : (getFeePayer tx.common : ViewProg Blob Result FeePayer).run LedgerView.query s
        = (.done { keylet := .ofKey .zero, payerTy := .account }, s) := by
  unfold getFeePayer
  rw [hown.1, hown.2]
  rfl

variable [Codec Blob] {view : MapView Blob σ}

structure Handled (view : MapView Blob σ) (tx : Transaction Blob) (s : Recording σ)
    (table : ApplyStateTable Blob (Recording σ)) : Prop where
  inv : table.Inv (Recording.mapView view)
  base_same : SameView view s table.base
  owners : table.threadOnlyOwners = ∅
  drops : (∀ account, (tx.apply account).All Access.KeepsDrops) → table.drops = 0

theorem Reads.run {ε α : Type} (h : Reads view s s₁) (p : ViewProg Blob ε α)
    : Reads view s (p.run LedgerView.query s₁).2 := by
  have hstep : ∀ (q : Query) s', True → Reads view s s' → Reads view s (LedgerView.query q s').2 :=
    fun q s' _ h' => h'.trans
      ⟨view.query_inv q h'.inv, (Recording.mapView view).same_query q h'.inv⟩
  exact Prog.run_induction (P := fun _ => True) hstep (Prog.All.trivial p) h

theorem Handled.reads (h : Handled view tx s table) : Reads view s table.base :=
  ⟨h.inv.base, h.base_same⟩

theorem Handled.reads_of_queried (h : Handled view tx s checked)
    (hqueried : Queried (Recording.mapView view) checked table)
    : Reads view s table.base :=
  h.reads.trans ⟨hqueried.moved.inv.base, hqueried.moved.base_same⟩

theorem newTable_inv (config : Config) (txHash : Hash256) (hinv : view.Inv s.view)
    : (newTable config txHash s).Inv (Recording.mapView view) :=
  have hinv' : (Recording.mapView view).Inv s := hinv
  inv_new hinv' txHash _ _

theorem Handled.run {ε α : Type} (h : Handled view tx s table) {p : TableProg Blob ε α}
    (hp : (∀ account, (tx.apply account).All Access.KeepsDrops) → p.All Access.KeepsDrops)
    : Handled view tx s (p.run step table).2 := by
  have hkept := run_kept h.inv p
  exact {
    inv := hkept.inv
    base_same := h.base_same.trans hkept.base_same
    owners := hkept.owners.trans h.owners
    drops := fun hkeeps => (run_drops (hp hkeeps) table).trans (h.drops hkeeps) }

theorem handled_newTable {ε α : Type} (txHash : Hash256) (hreads : Reads view s s₀)
    {p : TableProg Blob ε α} (hp : p.All Access.KeepsDrops)
    : Handled view tx s (p.run step (newTable config txHash s₀)).2 := by
  have hnew : Handled view tx s (newTable config txHash s₀) :=
    ⟨newTable_inv config txHash hreads.inv, hreads.same, rfl, fun _ => rfl⟩
  exact hnew.run fun _ => hp

theorem runChecks_queried [Records Blob] (hinv : table.Inv (Recording.mapView view))
    : Queried (Recording.mapView view) table (runChecks st result fee table).2 :=
  runQuery_queried hinv _

theorem runChecks_passes [Records Blob] (hchecked : (runChecks st result fee table).1 = .done none)
    : ∃ txDeclaredFee, Passes fee txDeclaredFee (collectEntries table) := by
  exact ⟨_, passes_of_run hchecked⟩

variable [Sha512Half]

theorem commit_committed [DecidableEq Blob]
    (h : (commit config table result fee failedFee).metadata.isSome)
    : table.base.cause = none ∧ ∃ metadata, (applyTable config table fee).1 = .ok metadata
      ∧ commit config table result fee failedFee = {
          result, chargedFee := fee, metadata := some metadata
          view := (applyTable config table fee).2 } := by
  unfold commit at h ⊢
  dsimp only at h ⊢
  split at h
  . cases h
  next hcause =>
  rw [if_neg hcause]
  split at h
  . cases h
  . next metadata hok => exact ⟨by simpa using hcause, metadata, hok, rfl⟩

structure Prepared (m : Contents Blob) (tx : Transaction Blob) (st : ApplyState Blob) : Prop where
  tx_eq : st.tx = tx
  accountID_eq : st.accountID = tx.common.account.decodeAccountID.getD (Vector.replicate 20 0)
  accountKey_eq : st.accountKey = Keylet.account st.accountID
  original : m.find st.accountKey = some st.originalAccountData
  fee_eq : st.fee = tx.calculateFee
  own : tx.PaysOwnFee → st.Own

theorem Prepared.set (h : Prepared m tx st) (account : AccountRoot) (fee : UInt64)
    : Prepared m tx { st with account, chargedFee := fee } :=
  ⟨h.tx_eq, h.accountID_eq, h.accountKey_eq, h.original, h.fee_eq, h.own⟩

variable [Records Blob]

def FromReset (view : MapView Blob σ) (config : Config) (tx : Transaction Blob) (s : Recording σ)
    (fee : UInt64) (checked : ApplyStateTable Blob (Recording σ))
    : Prop :=
  ∃ (st : ApplyState Blob) (s₀ : Recording σ), Prepared (view.contents s.view) tx st
    ∧ Reads view s s₀ ∧ resetTable config st s₀ = (.done fee, checked)

theorem FromReset.of_same (hsame : SameView view s s₁)
    (h : FromReset view config tx s₁ fee checked)
    : FromReset view config tx s fee checked := by
  obtain ⟨st, s₀, hprepared, hreads, hrun⟩ := h
  have hcontents : view.contents s₁.view = view.contents s.view := hsame.contents
  rw [hcontents] at hprepared
  exact ⟨st, s₀, hprepared, ⟨hreads.inv, hsame.trans hreads.same⟩, hrun⟩

structure Candidate (view : MapView Blob σ) (config : Config) (tx : Transaction Blob)
    (s : Recording σ) (result : Result) (fee : UInt64) (table : ApplyStateTable Blob (Recording σ))
    : Prop extends Handled view tx s table where
  applied : isApplied result = true
  fromReset : isTec result = true → isReapplyOnRetryTec result = false →
    FromReset view config tx s fee table

theorem handled_resetTable (hreads : Reads view s s₀)
    : Handled view tx s (resetTable config st s₀).2 :=
  handled_newTable st.txHash hreads (reset_keepsDrops config st)

theorem Candidate.of_reset (hprepared : Prepared (view.contents s.view) tx st)
    (hreads : Reads view s s₀) (hrun : resetTable config st s₀ = (.done fee, table))
    (happlied : isApplied result = true)
    : Candidate view config tx s result fee table := by
  have hhandled : Handled view tx s (resetTable config st s₀).2 := handled_resetTable hreads
  rw [hrun] at hhandled
  exact ⟨hhandled, happlied, fun _ _ => ⟨st, s₀, hprepared, hreads, hrun⟩⟩

theorem Candidate.replay (h : Candidate view config tx s result fee table)
    {p : TableProg Blob Result Unit} (hp : p.All Access.KeepsDrops)
    (hreapply : isReapplyOnRetryTec result = true)
    : Candidate view config tx s result fee (p.run step table).2 := by
  refine ⟨h.toHandled.run fun _ => hp, h.applied, ?_⟩
  intro _ hnot
  rw [hreapply] at hnot
  cases hnot

theorem Prepared.unreported (h : Prepared m tx st) {failure : Failure}
    (hrun : resetTable config st s₀ = (.fail failure, table)) (hown : tx.PaysOwnFee)
    : Unreported config failure.result :=
  ((reset_rejects (h.own hown) config).run hrun).unreported config

theorem prepare_spec (tx : Transaction Blob) (txHash : Hash256) (hinv : view.Inv s.view)
    : Reads view s (prepare tx txHash s).2
      ∧ (∀ r, (prepare tx txHash s).1 = .error r → tx.PaysOwnFee → r = tefINTERNAL)
      ∧ ∀ st, (prepare tx txHash s).1 = .ok st → Prepared (view.contents s.view) tx st := by
  have hinv' : (Recording.mapView view).Inv s := hinv
  generalize hkey : Keylet.account (tx.common.account.decodeAccountID.getD (Vector.replicate 20 0)) = key
  have hread : Reads view s (LedgerView.query (.read key) s).2 :=
    ⟨view.query_inv (.read key) hinv, (Recording.mapView view).same_query (.read key) hinv'⟩
  unfold prepare
  dsimp only
  rw [hkey]
  split
  . exact ⟨hread, by simp⟩
  . exact ⟨hread, by simp⟩
  . next accountData hdata =>
    have hfind := (Recording.mapView view).read_ok hinv' hdata
    split
    . exact ⟨hread, by simp⟩
    . next account hparse =>
      have hpayer := hread.run (getFeePayer tx.common : ViewProg Blob Result FeePayer)
      split
      . next hfail =>
        refine ⟨hpayer, fun r _ hown => ?_, by simp⟩
        rw [getFeePayer_own hown] at hfail
        cases hfail
      . exact ⟨hpayer, by simp⟩
      . next payer hdone =>
        refine ⟨hpayer, by simp, ?_⟩
        intro st hst
        cases hst
        exact {
          tx_eq := rfl
          accountID_eq := rfl
          accountKey_eq := hkey.symm
          original := hfind.symm
          fee_eq := rfl
          own := by
            intro hown
            rw [getFeePayer_own hown] at hdone
            cases hdone
            unfold ApplyState.Own ApplyState.hasExternalFeePayer ApplyState.isDelegated
            rw [hown.2]
            rfl }

variable [DecidableEq Blob]

structure Commits (view : MapView Blob σ) (config : Config) (tx : Transaction Blob)
    (s : Recording σ) (f : Finished Blob σ) (metadata : Metadata Blob)
    (checked table : ApplyStateTable Blob (Recording σ))
    : Prop extends Candidate view config tx s f.result f.chargedFee checked where
  queried : Queried (Recording.mapView view) checked table
  passes : ∃ txDeclaredFee, Passes f.chargedFee txDeclaredFee (collectEntries checked)
  lands : Lands view config table f.chargedFee metadata f.view

structure Ends (view : MapView Blob σ) (config : Config) (tx : Transaction Blob)
    (s : Recording σ) (f : Finished Blob σ)
    : Prop where
  inv : view.Inv f.view.view
  cases : SameView view s f.view
      ∧ (f.metadata = none ∨ config.applyFlags.dryRun = true)
    ∨ config.applyFlags.dryRun = false ∧ ∃ metadata checked table, f.metadata = some metadata
      ∧ Commits view config tx s f metadata checked table
  reported : tx.PaysOwnFee → f.metadata = none → Unreported config f.result

theorem Ends.of_fail (hreads : Reads view s s')
    (hreported : tx.PaysOwnFee → Unreported config result)
    : Ends view config tx s (.fail result fee s' : Finished Blob σ) :=
  ⟨hreads.inv, .inl ⟨hreads.same, .inl rfl⟩, fun hown _ => hreported hown⟩

theorem Ends.of_tef (hreads : Reads view s s') (hresult : isApplied result = false)
    : Ends view config tx s (.fail result fee s' : Finished Blob σ) :=
  .of_fail hreads fun _ => .inl hresult

theorem commit_ends (hcandidate : Candidate view config tx s result fee checked)
    (hqueried : Queried (Recording.mapView view) checked table)
    (hpasses : ∃ txDeclaredFee, Passes fee txDeclaredFee (collectEntries checked))
    : Ends view config tx s (commit config table result fee failedFee) := by
  have hreads := hcandidate.reads_of_queried hqueried
  unfold commit
  split
  . exact .of_tef hreads rfl
  obtain ⟨hinv, ⟨happly, hnothing⟩ | ⟨hdry, metadata, hok, hlands⟩⟩ :=
    applyTable_cases config fee hqueried.moved.inv
  . have hsame := hreads.same.trans happly
    dsimp only
    split
    . exact .of_tef ⟨hinv, hsame⟩ rfl
    . next metadata hok =>
      refine ⟨hinv, .inl ⟨hsame, .inr ?_⟩, fun _ hnone => by cases hnone⟩
      rcases hnothing with hdry | ⟨err, herr⟩
      . exact hdry
      rw [hok] at herr
      cases herr
  dsimp only
  rw [hok]
  exact ⟨hinv, .inr ⟨hdry, metadata, checked, table, rfl, hcandidate, hqueried, hpasses, hlands⟩,
    fun _ hnone => by cases hnone⟩

theorem applyInvariantViolation_ends (hreads : Reads view s s₀)
    (hprepared : Prepared (view.contents s.view) tx st)
    : Ends view config tx s (applyInvariantViolation config st s₀) := by
  have hhandled : Handled view tx s (resetTable config st s₀).2 := handled_resetTable hreads
  unfold applyInvariantViolation
  generalize hrun : resetTable config st s₀ = ran at *
  obtain ⟨outcome, table⟩ := ran
  cases outcome with
  | panic => exact .of_tef hhandled.reads rfl
  | fail failure => exact .of_fail hhandled.reads (hprepared.unreported hrun)
  | done fee =>
    dsimp only
    split
    . exact .of_tef hhandled.reads rfl
    have hqueried : Queried (Recording.mapView view) table
        (runChecks st tecINVARIANT_FAILED fee table).2 := runChecks_queried hhandled.inv
    have hchecked := hhandled.reads_of_queried hqueried
    split
    . exact .of_tef hchecked rfl
    . exact .of_tef hchecked rfl
    . next hchecked =>
      apply commit_ends _ hqueried (runChecks_passes hchecked)
      exact Candidate.of_reset hprepared hreads hrun rfl

theorem Ends.same_of_cause (h : Ends view config tx s f) (hcause : f.view.cause.isSome)
    : SameView view s f.view
      ∧ (f.metadata = none ∨ config.applyFlags.dryRun = true) := by
  rcases h.cases with hsame | ⟨_, _, _, _, _, hcommits⟩
  . exact hsame
  rw [hcommits.lands.cause] at hcause
  cases hcause

theorem Ends.of_cause (h : Ends view config tx s f) (hcause : f.view.cause.isSome) (fee : UInt64)
    : Ends view config tx s { f with result := tefEXCEPTION, chargedFee := fee } :=
  ⟨h.inv, .inl (h.same_of_cause hcause), fun _ _ => .inl rfl⟩

theorem checkAndCommit_ends (hprepared : Prepared (view.contents s.view) tx st)
    (hcandidate : Candidate view config tx s result st.chargedFee table)
    : Ends view config tx s (checkAndCommit config st result table failedFee) := by
  have hqueried : Queried (Recording.mapView view) table
      (runChecks st result st.chargedFee table).2 := runChecks_queried hcandidate.inv
  unfold checkAndCommit
  dsimp only
  split
  . next hchecked => exact commit_ends hcandidate hqueried (runChecks_passes hchecked)
  have hends : Ends view config tx s
      (applyInvariantViolation config st (runChecks st result st.chargedFee table).2.base) :=
    applyInvariantViolation_ends (hcandidate.reads_of_queried hqueried) hprepared
  split
  . next hcause => exact hends.of_cause hcause _
  . exact hends

-- Only a table that the flags let claim a fee gets to the checkers.
def Claims (config : Config) (result : Result) : Prop :=
  isTec result = true → config.applyFlags.failHard = false
    ∧ (config.applyFlags.retry = true → isReapplyOnRetryTec result = true)

def Pending.Leaves (view : MapView Blob σ) (config : Config) (tx : Transaction Blob) (s : Recording σ)
    : Pending Blob σ → Prop
  | .failed result fee s' => Ends view config tx s (.fail result fee s')
  | .escaped s' => Reads view s s'
  | .checks st result table _ => Prepared (view.contents s.view) tx st
    ∧ Candidate view config tx s result st.chargedFee table ∧ Claims config result

def Exit.Leaves (view : MapView Blob σ) (config : Config) (tx : Transaction Blob) (s : Recording σ)
    : Exit Blob σ → Prop
  | .finished f => Ends view config tx s f
  | .escaped s' => Reads view s s'

theorem applyTecRecovery_leaves {items : Items Blob} (hreads : Reads view s s₀)
    (hprepared : Prepared (view.contents s.view) tx st)
    (htec : isTec result = true) (hclaims : Claims config result)
    : (applyTecRecovery config deletions st items result s₀).Leaves view config tx s := by
  have hhandled : Handled view tx s (resetTable config st s₀).2 := handled_resetTable hreads
  have hcandidate : ∀ {fee table}, resetTable config st s₀ = (.done fee, table) →
      Candidate view config tx s result fee table :=
    fun hrun => Candidate.of_reset hprepared hreads hrun (isApplied_of_isTec htec)
  unfold applyTecRecovery
  generalize hrun : resetTable config st s₀ = ran at *
  obtain ⟨outcome, table⟩ := ran
  cases outcome with
  | panic => exact hhandled.reads
  | fail failure => exact .of_fail hhandled.reads (hprepared.unreported hrun)
  | done fee =>
    cases Records.parseAccountRoot st.originalAccountData with
    | none => exact hhandled.reads
    | some account =>
      dsimp only
      have hreset := hcandidate rfl
      generalize hran : (if isReapplyOnRetryTec result then _ else (Outcome.done (), table)) = cleaned
      obtain ⟨hcleaned, hrejects⟩ : Candidate view config tx s result fee cleaned.2
          ∧ ∀ r, cleaned.1 = .fail r → Rejects r := by
        rw [← hran]
        split
        . next hreapply =>
          refine ⟨hreset.replay (deletions.keepsDrops _ _ _) hreapply, fun r hfail => ?_⟩
          exact (deletions.failsWith _ _ _).run (Prod.ext hfail rfl)
        . exact ⟨hreset, fun r hfail => by cases hfail⟩
      split
      . exact hcleaned.reads
      . next r hfail => exact Ends.of_fail hcleaned.reads fun _ => (hrejects r hfail).unreported _
      split
      . exact Ends.of_tef hcleaned.reads rfl
      . exact ⟨hprepared.set st.account fee, hcleaned, hclaims⟩

section

variable (hprepared : Prepared (view.contents s.view) tx st) (htable : Handled view tx s table)

include hprepared htable

theorem applySuccess_leaves : (applySuccess st table).Leaves view config tx s := by
  unfold applySuccess
  dsimp only
  generalize hran : (if table.isErased st.accountKey then (Outcome.done (), table) else _) = updated
  obtain ⟨hupdated, hrejects⟩ : Handled view tx s updated.2
      ∧ ∀ r, updated.1 = .fail r → Rejects r := by
    rw [← hran]
    split
    . exact ⟨htable, fun r hfail => by cases hfail⟩
    refine ⟨htable.run fun _ => writeAccount_keepsDrops _ _, fun r hfail => ?_⟩
    exact (writeAccount_rejects _ _).run (Prod.ext hfail rfl)
  split
  . exact hupdated.reads
  . next r hfail => exact Ends.of_fail hupdated.reads fun _ => (hrejects r hfail).unreported _
  exact ⟨hprepared, ⟨hupdated, rfl, fun htec => by cases htec⟩, fun htec => by cases htec⟩

theorem applyHandler_leaves : (applyHandler config deletions st table).Leaves view config tx s := by
  have hhandled : Handled view tx s ((st.tx.apply st.account).run step table).2 := by
    apply htable.run
    intro hkeeps
    rw [hprepared.tx_eq]
    exact hkeeps st.account
  have hreads := hhandled.reads
  unfold applyHandler
  dsimp only
  split
  . exact Ends.of_tef hreads rfl
  split
  . exact Ends.of_tef hreads rfl
  . next returned account _ =>
    split
    . next hneither => exact Ends.of_tef hreads (by simpa [isApplied] using hneither)
    generalize (if ((st.tx.apply st.account).run step table).2.size > oversizeMetaDataCap then
      tecOVERSIZE else returned) = result
    split
    . next hfailHard =>
      exact Ends.of_fail hreads fun _ => .inr (.inl (by simpa using hfailHard))
    next hfailHard =>
    split
    . next hretry =>
      exact Ends.of_fail hreads fun _ => .inr (.inr (by simpa [and_assoc] using hretry))
    next hretry =>
    split
    . next htec =>
      apply applyTecRecovery_leaves hreads (hprepared.set account st.chargedFee) htec
      intro _
      simp only [htec, Bool.true_and] at hfailHard hretry
      exact ⟨by simpa using hfailHard, by simpa using hretry⟩
    . exact applySuccess_leaves (hprepared.set account st.chargedFee) hhandled

end

theorem Pending.finish_leaves {p : Pending Blob σ} (h : p.Leaves view config tx s)
    : (p.finish config).Leaves view config tx s := by
  cases p with
  | failed result fee s' => exact h
  | escaped s' => exact h
  | checks st result table failedFee => exact checkAndCommit_ends h.1 h.2.1

theorem Exit.deferred_leaves {e : Exit Blob σ} (h : e.Leaves view config tx s)
    : e.deferred.Leaves view config tx s := by
  cases e with
  | escaped s' => exact h
  | finished f =>
    simp only [deferred]
    split
    . next hcause => exact Ends.of_cause h hcause _
    . exact h

theorem beforeChecks_leaves (config : Config) (deletions : PersistentDeletions Blob)
    (tx : Transaction Blob) (txHash : Hash256) (hinv : view.Inv s.view)
    : (beforeChecks config deletions tx txHash s).Leaves view config tx s := by
  obtain ⟨hreads, herror, hprepared⟩ := prepare_spec tx txHash hinv
  unfold beforeChecks
  dsimp only
  split
  . next r hr =>
    exact Ends.of_fail hreads fun hown => .inl (herror r hr hown ▸ rfl)
  next st hst =>
  have htable : Handled view tx s ((chargeBeforeApply config st).run step
      (newTable config txHash (prepare tx txHash s).2)).2 :=
    handled_newTable txHash hreads (chargeBeforeApply_keepsDrops config st)
  split
  . exact htable.reads
  . next r hfail =>
    refine Ends.of_fail htable.reads fun hown => ?_
    exact ((chargeBeforeApply_rejects ((hprepared st hst).own hown) config).run
      (Prod.ext hfail rfl)).unreported config
  . exact applyHandler_leaves ((hprepared st hst).set _ _) htable

theorem doApply_leaves (config : Config) (deletions : PersistentDeletions Blob)
    (tx : Transaction Blob) (txHash : Hash256) (hinv : view.Inv s.view)
    : (doApply config deletions tx txHash s).Leaves view config tx s :=
  Exit.deferred_leaves (Pending.finish_leaves (beforeChecks_leaves config deletions tx txHash hinv))

theorem commitPreclaimTec_ends (txHash : Hash256) (htec : isTec result = true)
    (hinv : view.Inv s.view)
    : Ends view config tx s (commitPreclaimTec config tx txHash result s) := by
  obtain ⟨hreads, herror, hprepared⟩ := prepare_spec tx txHash hinv
  unfold commitPreclaimTec
  dsimp only
  split
  . next r hr => exact .of_fail hreads fun hown => .inl (herror r hr hown ▸ rfl)
  . next st hst =>
    have hpreparedSt := hprepared st hst
    have hhandled : Handled view tx s (resetTable config st (prepare tx txHash s).2).2 :=
      handled_resetTable hreads
    split
    . exact .of_tef hhandled.reads rfl
    . next failure hfail =>
      exact .of_fail hhandled.reads (hpreparedSt.unreported (Prod.ext hfail rfl))
    . next fee hdone =>
      apply checkAndCommit_ends (hpreparedSt.set st.account fee)
      exact Candidate.of_reset hpreparedSt hreads (Prod.ext hdone rfl)
        (isApplied_of_isTec htec)

/--
The checkers accept the table that only charges the fee, and the view takes what it writes.
-/
def SecondAccepts (config : Config) (st : ApplyState Blob) (base : Recording σ) (fee : UInt64)
    (table : ApplyStateTable Blob (Recording σ))
    : Prop :=
  ∃ t, resetTable config st base = (.done fee, t) ∧ t.base.cause = none
    ∧ runChecks st tecINVARIANT_FAILED fee t = (.done none, table) ∧ table.base.cause = none
    ∧ ∃ metadata, (applyTable config table fee).1 = .ok metadata

theorem applyInvariantViolation_committed
    (h : (applyInvariantViolation config st s).metadata.isSome)
    : ∃ fee table metadata, SecondAccepts config st s fee table
      ∧ applyInvariantViolation config st s = {
          result := tecINVARIANT_FAILED, chargedFee := fee, metadata := some metadata
          view := (applyTable config table fee).2 } := by
  unfold applyInvariantViolation at h ⊢
  dsimp only at h ⊢
  split at h
  . cases h
  . cases h
  next fee hreset =>
  split at h
  . cases h
  next hcause =>
  rw [if_neg hcause]
  split at h
  . cases h
  . cases h
  next hchecked =>
  obtain ⟨htable, metadata, hok, hcommit⟩ := commit_committed h
  exact ⟨fee, _, metadata, ⟨_, Prod.ext hreset rfl, by simpa using hcause, Prod.ext hchecked rfl,
    htable, metadata, hok⟩, hcommit⟩

theorem SecondAccepts.applyInvariantViolation_eq (h : SecondAccepts config st s fee table)
    : ∃ metadata, applyInvariantViolation config st s = {
        result := tecINVARIANT_FAILED, chargedFee := fee, metadata := some metadata
        view := (applyTable config table fee).2 } := by
  obtain ⟨t, hreset, hcause, hchecked, htable, metadata, hok⟩ := h
  refine ⟨metadata, ?_⟩
  unfold applyInvariantViolation commit
  simp [hreset, hcause, hchecked, htable, hok]

theorem checkAndCommit_result
    (h : (checkAndCommit config st result table failedFee).metadata.isSome)
    : (checkAndCommit config st result table failedFee).result = result
      ∨ (checkAndCommit config st result table failedFee).result = tecINVARIANT_FAILED
      ∨ (checkAndCommit config st result table failedFee).view.cause.isSome := by
  unfold checkAndCommit at h ⊢
  dsimp only at h ⊢
  split at h
  . obtain ⟨_, metadata, _, heq⟩ := commit_committed h
    rw [heq]
    exact .inl rfl
  right
  split at h
  . next hcause =>
    rw [if_pos hcause]
    exact .inr hcause
  next hcause =>
  rw [if_neg hcause]
  obtain ⟨fee, table, metadata, _, heq⟩ := applyInvariantViolation_committed h
  rw [heq]
  exact .inl rfl

end Engine
