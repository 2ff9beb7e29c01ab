import GoXrpl.Engine.Lemmas.Apply
import GoXrpl.Ledger.Lemmas.Ledger

/-!
This module contains when a transaction that is reported as not applied has left the view alone.
-/

open State ApplyState ApplyStateTable Program

namespace Engine

open Ter

section Contract

variable {Blob σ : Type} {f : Finished Blob σ}

theorem committed_report (config : Config) (f : Finished Blob σ)
    : ((Exit.finished f).deferred.report config).committed
        = if config.applyFlags.dryRun then none else f.metadata := by
  cases hcause : f.view.cause <;> simp [Exit.deferred, Exit.report, conclude, hcause]

theorem report_checks (h : f.view.cause = none)
    : (Exit.finished f).deferred.report config = conclude config f := by
  simp [Exit.deferred, Exit.report, h]

theorem conclude_applied (hdryRun : config.applyFlags.dryRun = false)
    (happlied : isApplied f.result = true) (hclaims : Claims config f.result)
    (hr : (conclude config f).result = some r)
    : r.applied = true := by
  unfold conclude at hr
  cases hr
  unfold Claims at hclaims
  cases htec : isTec f.result with
  | false => simp [hdryRun, happlied]
  | true =>
    obtain ⟨hfailHard, hretry⟩ := hclaims htec
    cases hset : config.applyFlags.retry with
    | false => simp [hdryRun, happlied, hfailHard]
    | true => simp [hdryRun, happlied, hfailHard, hretry hset]

variable [Codec Blob] [LedgerView Blob σ] {view : MapView Blob σ}

def Alters (view : MapView Blob σ) (s : σ) (ws : List (Write Blob)) : Prop :=
  Write.applyAll ws (view.contents s) ≠ view.contents s
    ∨ Write.applyAllDrops ws (view.dropsDestroyed s) ≠ view.dropsDestroyed s

variable [Records Blob] [Sha512Half] [DecidableEq Blob]
variable {config : Config} {deletions : PersistentDeletions Blob} {tx : Transaction Blob} {s : σ}
variable {base : Recording σ} {st : ApplyState Blob} {table : ApplyStateTable Blob (Recording σ)}

/--
The handler succeeds, or its failure is recovered from, and the checkers reject the table of that.
-/
def FirstRejects (config : Config) (deletions : PersistentDeletions Blob) (tx : Transaction Blob) (s : σ)
    (st : ApplyState Blob) (base : Recording σ)
    : Prop :=
  ∃ c result table failedFee, beforeApply config tx s = .ok c ∧ isSuccess c.result = true
    ∧ beforeChecks config deletions tx c.txHash c.view = .checks st result table failedFee
    ∧ (runChecks st result st.chargedFee table).1 ≠ .done none
    ∧ (runChecks st result st.chargedFee table).2.base = base

theorem applyWithContext_of_isSuccess (hbefore : beforeApply config tx s = .ok c)
    (hsuccess : isSuccess c.result = true)
    : applyWithContext config deletions tx s
        = (doApply config deletions tx c.txHash c.view).report config := by
  unfold applyWithContext
  rw [hbefore]
  exact if_pos hsuccess

theorem beforeApply_kept (hbefore : beforeApply config tx s = .ok c) (hinv : view.Inv s)
    : c.Kept view config ⟨s, none⟩ := by
  have hspec := beforeApply_spec config tx hinv
  rw [hbefore] at hspec
  exact hspec

-- Under the flags, only a transaction that gets to its handler is committed.
theorem isSuccess_of_committed (hinv : view.Inv s)
    (hflags : config.applyFlags.failHard = true ∨ config.applyFlags.retry = true)
    (h : (applyWithContext config deletions tx s).committed.isSome)
    : ∃ c, beforeApply config tx s = .ok c ∧ isSuccess c.result = true := by
  have hspec := beforeApply_spec config tx hinv
  unfold applyWithContext at h
  cases hbefore : beforeApply config tx s with
  | error a =>
    rw [hbefore] at h hspec
    rw [hspec.2] at h
    cases h
  | ok c =>
    rw [hbefore] at h hspec
    refine ⟨c, rfl, ?_⟩
    by_contra hnotSuccess
    have hretry := (hspec.claims.resolve_left hnotSuccess).2
    have hfailHard := hflags.resolve_right (by simp [hretry])
    simp only [hnotSuccess, hfailHard] at h
    cases h

theorem checks_of_committed {txHash : Hash256} (hinv : view.Inv s₀.view)
    (h : ((doApply config deletions tx txHash s₀).report config).committed.isSome)
    : ∃ st result table failedFee,
        beforeChecks config deletions tx txHash s₀ = .checks st result table failedFee
        ∧ (doApply config deletions tx txHash s₀).report config
          = conclude config (checkAndCommit config st result table failedFee) := by
  have hleaves := beforeChecks_leaves config deletions tx txHash hinv
  unfold doApply at h ⊢
  generalize beforeChecks config deletions tx txHash s₀ = pending at h hleaves ⊢
  cases pending with
  | failed result fee s' =>
    rw [Pending.finish, committed_report, committed_eq_none (.inl rfl)] at h
    cases h
  | escaped s' => cases h
  | checks st result table failedFee =>
    refine ⟨st, result, table, failedFee, rfl, report_checks ?_⟩
    by_contra hcause
    have hends : Ends view config tx s₀ (checkAndCommit config st result table failedFee) :=
      checkAndCommit_ends hleaves.1 hleaves.2.1
    have hnothing := hends.same_of_cause (Option.isSome_iff_ne_none.mpr hcause)
    rw [Pending.finish, committed_report, committed_eq_none hnothing.2] at h
    cases h

theorem SecondAccepts.lands {s : Recording σ} (h : SecondAccepts config st base fee table)
    (hdryRun : config.applyFlags.dryRun = false) (hreads : Reads view s base)
    : SameView view s table.base
      ∧ ∃ metadata, Lands view config table fee metadata (applyTable config table fee).2 := by
  obtain ⟨t, hreset, _, hchecked, _, _, hok⟩ := h
  have hhandled : Handled view st.tx s (resetTable config st base).2 := handled_resetTable hreads
  rw [hreset] at hhandled
  have hqueried : Queried (Recording.mapView view) t (runChecks st tecINVARIANT_FAILED fee t).2 :=
    runChecks_queried hhandled.inv
  rw [hchecked] at hqueried
  refine ⟨(hhandled.reads_of_queried hqueried).same, ?_⟩
  obtain ⟨_, ⟨_, hdry | ⟨err, herr⟩⟩ | ⟨_, metadata, _, hlands⟩⟩ :=
    applyTable_cases config fee hqueried.moved.inv
  . rw [hdryRun] at hdry
    cases hdry
  . rw [hok] at herr
    cases herr
  . exact ⟨metadata, hlands⟩

theorem FirstRejects.reads (h : FirstRejects config deletions tx s st base) (hinv : view.Inv s)
    : Reads view ⟨s, none⟩ base := by
  obtain ⟨c, result, table, failedFee, hbefore, _, hchecks, _, rfl⟩ := h
  have hkept := beforeApply_kept hbefore hinv
  have hleaves := beforeChecks_leaves config deletions tx c.txHash hkept.inv
  rw [hchecks] at hleaves
  have hqueried : Queried (Recording.mapView view) table (runChecks st result st.chargedFee table).2 :=
    runChecks_queried hleaves.2.1.inv
  exact hkept.toReads.trans (hleaves.2.1.reads_of_queried hqueried)

section

variable (hrejects : FirstRejects config deletions tx s st base)
variable (haccepts : SecondAccepts config st base fee table)
variable (hdryRun : config.applyFlags.dryRun = false) (hinv : view.Inv s)

include hrejects haccepts hdryRun hinv

theorem FirstRejects.same_iff
    : view.Same s (applyTable config table fee).2.view
      ↔ ¬ Alters view s (committedWrites config table fee) := by
  obtain ⟨hsame, metadata, hlands⟩ := haccepts.lands hdryRun (hrejects.reads hinv)
  have hcontents : view.contents table.base.view = view.contents s := hsame.contents
  have hdrops : view.dropsDestroyed table.base.view = view.dropsDestroyed s := hsame.drops
  have hlandsContents := hlands.contents
  have hlandsDrops := hlands.drops
  rw [hcontents] at hlandsContents
  rw [hdrops] at hlandsDrops
  unfold Alters
  rw [not_or, not_not, not_not, ← hlandsContents, ← hlandsDrops]
  exact ⟨fun h => ⟨h.contents, h.drops⟩, fun h => ⟨h.1, h.2⟩⟩

theorem FirstRejects.applyWithContext_eq
    : ∃ metadata, applyWithContext config deletions tx s = conclude config {
        result := tecINVARIANT_FAILED, chargedFee := fee, metadata := some metadata
        view := (applyTable config table fee).2 } := by
  obtain ⟨_, _, hlands⟩ := haccepts.lands hdryRun (hrejects.reads hinv)
  obtain ⟨metadata, heq⟩ := haccepts.applyInvariantViolation_eq
  obtain ⟨c, result, t, failedFee, hbefore, hsuccess, hchecks, hrejected, rfl⟩ := hrejects
  refine ⟨metadata, ?_⟩
  have hf : checkAndCommit config st result t failedFee = {
      result := tecINVARIANT_FAILED, chargedFee := fee, metadata := some metadata
      view := (applyTable config table fee).2 } := by
    unfold checkAndCommit
    dsimp only
    split
    . next haccepted => exact absurd haccepted hrejected
    . rw [heq, hlands.cause]
      rfl
  rw [applyWithContext_of_isSuccess hbefore hsuccess, doApply, hchecks, Pending.finish, hf]
  exact report_checks hlands.cause

end

theorem rejects_of_committed (hdryRun : config.applyFlags.dryRun = false) (hinv : view.Inv s)
    (hflags : config.applyFlags.failHard = true ∨ config.applyFlags.retry = true)
    (hcommitted : (applyWithContext config deletions tx s).committed.isSome)
    (hr : (applyWithContext config deletions tx s).result = some r) (hnot : r.applied = false)
    : ∃ st base fee table, FirstRejects config deletions tx s st base
      ∧ SecondAccepts config st base fee table := by
  obtain ⟨c, hbefore, hsuccess⟩ := isSuccess_of_committed hinv hflags hcommitted
  rw [applyWithContext_of_isSuccess hbefore hsuccess] at hcommitted hr
  have hkept := beforeApply_kept hbefore hinv
  have hleaves := beforeChecks_leaves config deletions tx c.txHash hkept.inv
  obtain ⟨st, result, table, failedFee, hchecks, hreport⟩ := checks_of_committed hkept.inv hcommitted
  rw [hchecks] at hleaves
  rw [hreport] at hcommitted hr
  have hmetadata : (checkAndCommit config st result table failedFee).metadata.isSome := by
    simpa [conclude, hdryRun] using hcommitted
  by_cases haccepted : (runChecks st result st.chargedFee table).1 = .done none
  . have hfirst : checkAndCommit config st result table failedFee
        = commit config (runChecks st result st.chargedFee table).2 result st.chargedFee failedFee := by
      simp only [checkAndCommit, haccepted]
    rw [hfirst] at hmetadata hr
    obtain ⟨_, _, _, heq⟩ := commit_committed hmetadata
    rw [heq] at hr
    rw [conclude_applied hdryRun hleaves.2.1.applied hleaves.2.2 hr] at hnot
    cases hnot
  . have hsecond : (checkAndCommit config st result table failedFee).metadata
        = (applyInvariantViolation config st (runChecks st result st.chargedFee table).2.base).metadata := by
      unfold checkAndCommit
      dsimp only
      split
      . next hnone => exact absurd hnone haccepted
      . split <;> rfl
    rw [hsecond] at hmetadata
    obtain ⟨fee, final, _, haccepts, _⟩ := applyInvariantViolation_committed hmetadata
    exact ⟨st, _, fee, final,
      ⟨c, result, table, failedFee, hbefore, hsuccess, hchecks, haccepted, rfl⟩, haccepts⟩

theorem noEffectUnlessApplied_iff (deletions : PersistentDeletions Blob)
    (hdryRun : config.applyFlags.dryRun = false) (hinv : view.Inv s)
    : (∀ r, (applyWithContext config deletions tx s).result = some r → r.applied = false →
        view.Same s (applyWithContext config deletions tx s).view.view)
      ↔ (config.applyFlags.failHard = true ∨ config.applyFlags.retry = true →
        ∀ st base fee table, FirstRejects config deletions tx s st base →
          SecondAccepts config st base fee table →
            ¬ Alters view s (committedWrites config table fee)) := by
  constructor
  . intro hnoEffect hflags st base fee table hrejects haccepts
    rw [← hrejects.same_iff haccepts hdryRun hinv]
    obtain ⟨metadata, heq⟩ := hrejects.applyWithContext_eq haccepts hdryRun hinv
    rw [heq] at hnoEffect
    apply hnoEffect _ rfl
    have htec : isTec tecINVARIANT_FAILED = true := rfl
    have hreapply : isReapplyOnRetryTec tecINVARIANT_FAILED = false := rfl
    rcases hflags with hset | hset <;> simp [hset, htec, hreapply]
  . intro hcondition r hr hnot
    have hsettles : Settles view config tx ⟨s, none⟩ (applyWithContext config deletions tx s) :=
      applyWithContext_settles deletions hinv
    rcases hsettles.cases with ⟨hsame, _⟩ | ⟨_, f, metadata, _, _, hmetadata, hcommits, hconclude⟩
    . exact ⟨hsame.contents, hsame.drops⟩
    by_cases hflags : config.applyFlags.failHard = true ∨ config.applyFlags.retry = true
    . have hcommitted : (applyWithContext config deletions tx s).committed.isSome := by
        rw [hconclude, conclude, hdryRun, hmetadata]
        rfl
      obtain ⟨st, base, fee, table, hrejects, haccepts⟩ :=
        rejects_of_committed hdryRun hinv hflags hcommitted hr hnot
      obtain ⟨_, heq⟩ := hrejects.applyWithContext_eq haccepts hdryRun hinv
      rw [heq, conclude, hrejects.same_iff haccepts hdryRun hinv]
      exact hcondition hflags st base fee table hrejects haccepts
    . have hclaims : Claims config f.result := by
        simp only [not_or, Bool.not_eq_true] at hflags
        intro _
        exact ⟨hflags.1, fun hset => by simp [hflags.2] at hset⟩
      rw [hconclude] at hr
      rw [conclude_applied hdryRun hcommits.applied hclaims hr] at hnot
      cases hnot

end Contract

namespace Sample

inductive Fields where
  | account (account : AccountRoot)
  | directory (node : DirectoryNode)
  | ticket (ownerNode : UInt64)
  deriving DecidableEq

structure Entry where
  fields : Fields
  previousTxnID : Hash256 := .zero
  previousTxnLgrSeq : UInt32 := 0
  deriving DecidableEq

namespace Entry

def type (e : Entry) : EntryType :=
  match e.fields with
  | .account _ => .accountRoot
  | .directory _ => .directoryNode
  | .ticket _ => .ticket

def parseAccountRoot (e : Entry) : Option AccountRoot :=
  match e.fields with
  | .account account => some account
  | _ => none

def parseDirectoryNode (e : Entry) : Option DirectoryNode :=
  match e.fields with
  | .directory node => some node
  | _ => none

def getOwnerNode (e : Entry) : Option UInt64 :=
  match e.fields with
  | .ticket ownerNode => some ownerNode
  | _ => none

instance : Codec Entry where
  decodeType e := some e.type
  decodes typ e := typ == e.type
  previousTxnID _ e := .ok (some e.previousTxnID)
  previousTxnLgrSeq _ e := e.previousTxnLgrSeq
  setPreviousTxn _ e txHash seq := some { e with previousTxnID := txHash, previousTxnLgrSeq := seq }
  account _ _ := none
  destination _ _ := none
  lowLimitIssuer _ := none
  highLimitIssuer _ := none

instance : Records Entry where
  parseAccountRoot := parseAccountRoot
  serializeAccountRoot account := some { fields := .account account }
  parseDirectoryNode := parseDirectoryNode
  serializeDirectoryNode node _ := some { fields := .directory node }
  parseSponsorship _ := none
  serializeSponsorship _ := none
  parseEscrow _ := none
  parsePayChannel _ := none
  getOwnerNode := getOwnerNode

end Entry

-- Keys that differ where the spaces do
abbrev sha512Half : Sha512Half where
  sum data := .replicate 32 (data.getD 1 0)

def accountID : AccountID := .replicate 20 1

def ledger : Ledger Entry := .ofEntries [(.replicate 32 0x61,
  { fields := .account { balance := 1000, sequence := 4, ownerCount := 0, ticketCount := 0 } })]

abbrev view : MapView Entry (Ledger Entry) := Ledger.mapView fun _ => none

def config (failHard retry dryRun : Bool) : Config where
  applyFlags := { failHard, retry, dryRun }
  ledgerSequence := 5
  reserveBase := 100
  reserveIncrement := 20

def deletions : PersistentDeletions Entry where
  replay _ _ _ := pure ()
  keepsDrops _ _ _ := trivial
  failsWith _ _ _ := trivial

def tx (apply : AccountRoot → TableProg Entry Empty (Result × AccountRoot)) : Transaction Entry where
  common := { account := .account accountID, fee := some 10, sequence := some 4 }
  preflight := tesSUCCESS
  hash := some (.replicate 32 7)
  preclaim := pure (tesSUCCESS, none)
  calculateBaseFee := pure 10
  apply
  invariants _ _ _ := pure none

-- A handler that creates drops
def mint (account : AccountRoot) : TableProg Entry Empty (Result × AccountRoot) :=
  pure (tesSUCCESS, { account with balance := account.balance + 5 })

attribute [local instance] sha512Half

def minted (failHard retry : Bool) : Applied Entry (Ledger Entry) :=
  applyWithContext (config failHard retry false) deletions (tx mint) ledger

theorem minted_not_applied_but_charged
    : (minted false true).result.map (fun r => (r.result, r.applied))
          = some (tecINVARIANT_FAILED, false)
      ∧ (view.contents ledger (.replicate 32 0x61)).bind Entry.parseAccountRoot
          = some { balance := 1000, sequence := 4, ownerCount := 0, ticketCount := 0 }
      ∧ (view.contents (minted false true).view.view (.replicate 32 0x61)).bind
          Entry.parseAccountRoot
          = some { balance := 990, sequence := 5, ownerCount := 0, ticketCount := 0 }
      ∧ view.dropsDestroyed ledger = 0
      ∧ view.dropsDestroyed (minted false true).view.view = 10 := by
  decide +kernel

theorem minted_alters
    : (config false true false).applyFlags.dryRun = false ∧ view.Inv ledger
      ∧ ∃ st base fee table, FirstRejects (config false true false) deletions (tx mint) ledger st base
        ∧ SecondAccepts (config false true false) st base fee table
        ∧ Alters view ledger (committedWrites (config false true false) table fee) := by
  refine ⟨rfl, rfl, ?_⟩
  by_contra hnone
  have happlied : (minted false true).result.map (·.applied) = some false := by decide +kernel
  have hdrops : view.dropsDestroyed (minted false true).view.view = 10 := by decide +kernel
  rw [Option.map_eq_some_iff] at happlied
  obtain ⟨r, hr, hnot⟩ := happlied
  have hsame : view.Same ledger (minted false true).view.view := by
    apply (noEffectUnlessApplied_iff deletions rfl rfl).mpr _ r hr hnot
    intro _ st base fee table hrejects haccepts halters
    exact hnone ⟨st, base, fee, table, hrejects, haccepts, halters⟩
  rw [hsame.drops] at hdrops
  cases hdrops

end Sample

end Engine
