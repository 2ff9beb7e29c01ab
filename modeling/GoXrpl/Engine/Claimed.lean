import GoXrpl.Engine.NoEffect
import GoXrpl.ApplyState.Lemmas.Directory

/-!
This module contains what a transaction that fails with a claim leaves behind: its source account has
paid the fee, and its sequence or its ticket is used up.
-/

open State ApplyState ApplyStateTable Program Keylet Records Contents Function

namespace Engine

open Ter

section Contract

variable {Blob σ : Type}

def Transaction.source (tx : Transaction Blob) : AccountID :=
  tx.common.account.decodeAccountID.getD (Vector.replicate 20 0)

def claimedFee (tx : Transaction Blob) (account : AccountRoot) : UInt64 :=
  min tx.calculateFee account.balance

def claimedAccount (tx : Transaction Blob) (account : AccountRoot) : AccountRoot :=
  match tx.common.ticketSequence with
  | none =>
    { account with
      balance := account.balance - claimedFee tx account
      sequence := tx.common.sequence.elim account.sequence (· + 1) }
  | some _ =>
    { account with
      balance := account.balance - claimedFee tx account
      ownerCount := if account.ownerCount > 0 then account.ownerCount - 1 else account.ownerCount
      ticketCount := if account.ticketCount > 0 then account.ticketCount - 1 else account.ticketCount }

theorem recoveredAccount_own (hown : st.Own) (hfee : st.fee = st.tx.calculateFee) (account : AccountRoot)
    : recoveredAccount st account = (claimedAccount st.tx account, claimedFee st.tx account) := by
  unfold recoveredAccount claimedAccount claimedFee ApplyState.isTicket
  rw [hown, hfee]
  cases st.tx.common.ticketSequence with
  | none => cases st.tx.common.sequence <;> rfl
  | some ticketSequence => rfl

variable [Records Blob]

/--
The account roots of the ledger survive parse and re-serialize, with other numbers in the four fields
that a claim changes.
-/
def AccountsSurvive (m : Contents Blob) : Prop :=
  ∀ k (data data' : Blob) (account : AccountRoot) balance sequence ownerCount ticketCount,
    m k = some data → parseAccountRoot data = some account →
    serializeAccountRoot { account with balance, sequence, ownerCount, ticketCount }
      = some data' →
    parseAccountRoot data' = some { account with balance, sequence, ownerCount, ticketCount }

theorem AccountsSurvive.claimedAccount (h : AccountsSurvive m)
    {data data' : Blob} {account : AccountRoot} (tx : Transaction Blob) (hk : m k = some data)
    (hparse : parseAccountRoot data = some account)
    (hserialize : serializeAccountRoot (Engine.claimedAccount tx account) = some data')
    : parseAccountRoot data' = some (Engine.claimedAccount tx account) := by
  unfold Engine.claimedAccount at hserialize ⊢
  cases hticket : tx.common.ticketSequence with
  | none =>
    rw [hticket] at hserialize
    exact h k data data' account _ _ _ _ hk hparse hserialize
  | some ticketSequence =>
    rw [hticket] at hserialize
    exact h k data data' account _ _ _ _ hk hparse hserialize

variable [Codec Blob] [Sha512Half]

def Consumed (tx : Transaction Blob) (m m' : Contents Blob) : Prop :=
  match tx.common.ticketSequence with
  | none => m' = m
  | some ticketSequence =>
    (m.find (Keylet.ticket tx.source ticketSequence)).isSome
      ∧ ∃ page m₁,
        (Keylet.ticket tx.source ticketSequence).key
          ∈ m.listed (Keylet.ownerDirPage tx.source page).key
        ∧ WithoutItem (Keylet.ownerDirPage tx.source page).key
            (Keylet.ticket tx.source ticketSequence).key m m₁
        ∧ Contents.PagesKept (IsPage (Keylet.ownerDir tx.source)) m m₁
        ∧ m' = update m₁ (Keylet.ticket tx.source ticketSequence).key none

section Reset

variable [LedgerView Blob σ]
variable {t t' : ApplyStateTable Blob σ} {tx : Transaction Blob}

theorem eraseTicketEntry_run (h : At view m m t) (hpages : m.PagesSurvive)
    (hrun : (eraseTicketEntry accountID ticketSequence).run step t = (.done u, t'))
    : (m.find (ticket accountID ticketSequence)).isSome
      ∧ ∃ page m₁,
        (ticket accountID ticketSequence).key
          ∈ m.listed (ownerDirPage accountID page).key
        ∧ WithoutItem (ownerDirPage accountID page).key
            (ticket accountID ticketSequence).key m m₁
        ∧ Contents.PagesKept (IsPage (ownerDir accountID)) m m₁
        ∧ At view m (update m₁ (ticket accountID ticketSequence).key none) t' := by
  unfold eraseTicketEntry at hrun
  obtain ⟨found, t₁, hread, hrest₁⟩ := Prog.run_bind_done hrun
  obtain ⟨h₁, hfound⟩ := h.read (Prog.run_mapError_done.mp hread)
  obtain ⟨ticketData, t₂, hticket, hrest₂⟩ := Prog.run_bind_done hrest₁
  obtain ⟨hticketData, rfl⟩ := Prog.run_ofOption_done.mp hticket
  rw [hticketData] at hfound
  obtain ⟨page, t₃, hownerNode, hrest₃⟩ := Prog.run_bind_done hrest₂
  obtain ⟨_, rfl⟩ := Prog.run_ofOption_done.mp hownerNode
  obtain ⟨success, t₄, hremove, hrest₄⟩ := Prog.run_bind_done hrest₃
  refine ⟨by rw [← hfound]; rfl, page, ?_⟩
  cases success with
  | false => cases hrest₄
  | true =>
    obtain ⟨hlisted, m₁, h₄, hkept, hlists⟩ :=
      dirRemove_withoutItem hpages h₁ (Prog.run_mapError_done.mp hremove)
    refine ⟨m₁, hlisted, hlists, hkept, ?_⟩
    -- a ticket is not a page, so it is still the entry that was read
    have hfits : (ticket accountID ticketSequence).Fits m₁ := by
      apply Contents.fits_of_find hfound.symm
      apply hkept.eq_of_not_holds
      exact Contents.not_holds_of_find hfound.symm rfl (by decide)
    exact h₄.erase hfits (Prog.run_mapError_done.mp hrest₄)

theorem consumeTicketForRecovery_run (htx : st.tx = tx) (haccountID : st.accountID = tx.source)
    (h : At view m m t) (hpages : m.PagesSurvive)
    (hrun : (consumeTicketForRecovery st).run step t = (.done u, t'))
    : ∃ m₁, Consumed tx m m₁ ∧ At view m m₁ t' := by
  unfold consumeTicketForRecovery at hrun
  unfold Consumed
  rw [htx, haccountID] at hrun
  cases hticket : tx.common.ticketSequence with
  | none =>
    rw [hticket] at hrun
    cases hrun
    exact ⟨m, rfl, h⟩
  | some ticketSequence =>
    rw [hticket] at hrun
    obtain ⟨hfound, page, m₁, hlisted, hlists, hkept, h'⟩ :=
      eraseTicketEntry_run h hpages (Prog.run_mapError_done.mp hrun)
    exact ⟨_, ⟨hfound, page, m₁, hlisted, hlists, hkept, rfl⟩, h'⟩

theorem Consumed.account_eq (h : Consumed tx m m₁)
    (hdata : m.find (account tx.source) = some data)
    : m₁ (account tx.source).key = m (account tx.source).key := by
  unfold Consumed at h
  cases hticket : tx.common.ticketSequence with
  | none =>
    rw [hticket] at h
    rw [show m₁ = m from h]
  | some ticketSequence =>
    simp only [hticket] at h
    obtain ⟨hfound, page, m₂, _, _, hkept, rfl⟩ := h
    obtain ⟨ticketData, hfound⟩ := Option.isSome_iff_exists.mp hfound
    rw [update_of_ne (key_ne_of_find hdata hfound rfl rfl (by decide))]
    apply hkept.eq_of_not_holds
    exact not_holds_of_find hdata rfl (by decide)

theorem reset_run (hprepared : Prepared m tx st) (hown : st.Own)
    (h : At view m m t) (hpages : m.PagesSurvive)
    (hrun : (reset config st).run step t = (.done fee, t'))
    : ∃ account data' m₁, parseAccountRoot st.originalAccountData = some account
      ∧ Consumed tx m m₁ ∧ serializeAccountRoot (claimedAccount tx account) = some data'
      ∧ fee = claimedFee tx account
      ∧ At view m (update m₁ (Keylet.account tx.source).key (some data')) t' := by
  have haccountKey : st.accountKey = Keylet.account tx.source := by
    rw [hprepared.accountKey_eq, hprepared.accountID_eq]
    rfl
  have horiginal := hprepared.original
  rw [haccountKey] at horiginal
  obtain ⟨_, t₁, hconsume, hrest₁⟩ := Prog.run_bind_done hrun
  obtain ⟨m₁, hconsumed, h₁⟩ :=
    consumeTicketForRecovery_run hprepared.tx_eq hprepared.accountID_eq h hpages hconsume
  obtain ⟨account, t₂, hparse, hrest₂⟩ := Prog.run_bind_done hrest₁
  obtain ⟨haccount, rfl⟩ := Prog.run_ofOption_done.mp hparse
  obtain ⟨chargedFee, t₃, hwrite, hrest₃⟩ := Prog.run_bind_done hrest₂
  rw [payExternalFeeOnTable_own hown] at hrest₃
  cases hrest₃
  unfold writeRecoveryAccount at hwrite
  rw [recoveredAccount_own hown (hprepared.tx_eq ▸ hprepared.fee_eq), hprepared.tx_eq] at hwrite
  obtain ⟨_, t₄, hwriteAccount, hpure⟩ := Prog.run_bind_done hwrite
  cases hpure
  obtain ⟨data', t₅, hserialize, hupdate⟩ :=
    Prog.run_bind_done (Prog.run_mapError_done.mp hwriteAccount)
  obtain ⟨hdata', rfl⟩ := Prog.run_ofOption_done.mp hserialize
  rw [haccountKey] at hupdate
  have hfits : (Keylet.account tx.source).Fits m₁ :=
    fits_of_find horiginal (hconsumed.account_eq horiginal)
  obtain ⟨h', _⟩ := h₁.update hfits (Prog.run_mapError_done.mp hupdate)
  exact ⟨account, data', m₁, haccount, hconsumed, hdata', rfl, h'⟩

end Reset

variable [LedgerView Blob σ]

structure OnlyCharges (view : MapView Blob σ) (tx : Transaction Blob) (s s' : σ) (fee : UInt64)
    : Prop where
  entries : ∃ data account data' m₁,
    (view.contents s).find (Keylet.account tx.source) = some data
    ∧ parseAccountRoot data = some account
    ∧ fee = claimedFee tx account
    ∧ Consumed tx (view.contents s) m₁
    ∧ parseAccountRoot data' = some (claimedAccount tx account)
    ∧ ∀ {γ : Type} (image : Blob → γ), IgnoresThreading image →
        Contents.EqUpTo image (view.contents s')
          (update m₁ (Keylet.account tx.source).key (some data'))
  destroyed : fee.toNat < 2 ^ 63 ∧ view.dropsDestroyed s' = view.dropsDestroyed s + fee.toInt64

variable [DecidableEq Blob]
variable {checked table : ApplyStateTable Blob (Recording σ)}

theorem Commits.onlyCharges (hc : Commits view config tx s f metadata checked table)
    (hclosed : config.isViewOpen = false)
    (hsponsored : isFeeSponsored tx.common = false) (hdelegate : tx.common.delegate = .empty)
    (haccounts : AccountsSurvive (view.contents s.view)) (hpages : (view.contents s.view).PagesSurvive)
    (htec : isTec f.result = true) (hother : isReapplyOnRetryTec f.result = false)
    : OnlyCharges view tx s.view f.view.view f.chargedFee := by
  obtain ⟨st, s₀, hprepared, ⟨hinv, hsame⟩, hrun⟩ := hc.fromReset htec hother
  unfold resetTable at hrun
  have hcontents₀ : view.contents s₀.view = view.contents s.view := hsame.contents
  have hown : st.Own := hprepared.own ⟨hsponsored, hdelegate⟩
  have hinv' : (Recording.mapView view).Inv s₀ := hinv
  have hnew : At (Recording.mapView view) (view.contents s.view) (view.contents s.view)
      (newTable config st.txHash s₀) := by
    rw [← hcontents₀]
    exact at_new hinv' _ _ _
  obtain ⟨account, data', m₁, hparse, hconsumed, hserialize, hfee, hat⟩ :=
    reset_run hprepared hown hnew hpages hrun
  have haccountKey : st.accountKey = Keylet.account tx.source := by
    rw [hprepared.accountKey_eq, hprepared.accountID_eq]
    rfl
  have horiginal := hprepared.original
  rw [haccountKey] at horiginal
  have hdrops : checked.drops = 0 := by
    have hkept := run_drops (reset_keepsDrops config st) (newTable config st.txHash s₀)
    rw [hrun] at hkept
    exact hkept
  have hshown : checked.items.overlay (view.contents s.view)
      = update m₁ (Keylet.account tx.source).key (some data') := by
    rw [← hat.contents]
    unfold ApplyStateTable.contents
    rw [hc.contents_checked]
  obtain ⟨_, hpasses⟩ := hc.passes
  constructor
  . refine ⟨st.originalAccountData, account, data', m₁, horiginal, hparse, hfee, hconsumed, ?_, ?_⟩
    . exact haccounts.claimedAccount tx (find_eq_some.mp horiginal).1 hparse hserialize
    intro γ image himage
    rw [← hshown]
    exact hc.contents_eqUpTo hclosed himage
  . exact ⟨Nat.lt_trans hpasses.fee_lt (by decide), hc.dropsDestroyed_eq hclosed hdrops⟩

theorem applied_tec_onlyCharges (deletions : PersistentDeletions Blob) {s : σ} (hinv : view.Inv s)
    (hclosed : config.isViewOpen = false)
    (hsponsored : isFeeSponsored tx.common = false) (hdelegate : tx.common.delegate = .empty)
    (haccounts : AccountsSurvive (view.contents s)) (hpages : (view.contents s).PagesSurvive)
    {r : ApplyResult Blob} (hr : (applyWithContext config deletions tx s).result = some r)
    (happlied : r.applied = true) (htec : isTec r.result = true)
    (hother : isReapplyOnRetryTec r.result = false)
    : OnlyCharges view tx s (applyWithContext config deletions tx s).view.view r.fee := by
  have hsettles : Settles view config tx ⟨s, none⟩ (applyWithContext config deletions tx s) :=
    applyWithContext_settles deletions hinv
  have hcommitted := hsettles.reported ⟨hsponsored, hdelegate⟩ r hr happlied
  rcases hsettles.cases with ⟨_, hnone⟩ | ⟨_, f, metadata, checked, table, _, hc, ha⟩
  . rw [hnone] at hcommitted
    cases hcommitted
  rw [ha] at hr ⊢
  cases hr
  exact hc.onlyCharges hclosed hsponsored hdelegate haccounts hpages htec hother

end Contract

namespace Sample

attribute [local instance] sha512Half

-- A handler that changes the account and fails
def fail (account : AccountRoot) : TableProg Entry Empty (Result × AccountRoot) :=
  .call (.write (.update (Keylet.account accountID) { fields := .account { account with balance := 0 } }))
    fun _ => pure (tecCLAIM, { account with ownerCount := 7 })

def failed : Applied Entry (Ledger Entry) :=
  applyWithContext (config false false false) deletions (tx fail) ledger

theorem failed_reported
    : failed.result.map (fun r => (r.applied, r.result, r.fee)) = some (true, tecCLAIM, 10) := by
  decide +kernel

theorem accountsSurvive (m : Contents Entry) : AccountsSurvive m := by
  intro k data data' account balance sequence ownerCount ticketCount _ _ hserialize
  cases hserialize
  rfl

theorem pagesSurvive (m : Contents Entry) : m.PagesSurvive := by
  intro k node node' data' _ _ hserialize
  cases hserialize
  exact ⟨rfl, rfl⟩

theorem failed_onlyCharges
    : failed.result.map (fun r => (r.applied, r.result, r.fee)) = some (true, tecCLAIM, 10)
      ∧ OnlyCharges view (tx fail) ledger failed.view.view 10 := by
  refine ⟨failed_reported, ?_⟩
  obtain ⟨r, hr, hreported⟩ := Option.map_eq_some_iff.mp failed_reported
  simp only [Prod.mk.injEq] at hreported
  rw [← hreported.2.2]
  apply applied_tec_onlyCharges deletions rfl rfl rfl rfl (accountsSurvive _) (pagesSurvive _) hr
    hreported.1
  . rw [hreported.2.1]
    rfl
  rw [hreported.2.1]
  rfl

end Sample

end Engine
