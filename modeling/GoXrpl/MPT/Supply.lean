import GoXrpl.Accounting.Total
import GoXrpl.Ledger.Lemmas.Ledger
import GoXrpl.MPT.Lemmas.Credit

/-!
This module contains the conservation of the supply of an MPT.
-/

open State Program Prog LedgerView State.Keylet Vector Int

namespace MPT

open Engine Engine.Ter

structure IsRounded (amount : Int) (rate : Nat) (gross : Int) : Prop where
  nearest : 2 * (gross * rateOne.toNat - amount * rate).natAbs ≤ rateOne.toNat
  tie : 2 * (gross * rateOne.toNat - amount * rate).natAbs = rateOne.toNat → gross % 2 = 0

theorem isRounded_parity (amount : Int) : IsRounded amount rateOne.toNat amount := by
  constructor
  . simp
  intro h
  simp [rateOne] at h

theorem scaleRate_some (hamount : 0 ≤ amount.toInt)
    (h : scaleRate amount rate rateOne.toUInt64 = some gross)
    : IsRounded amount.toInt rate.toNat gross.toInt
      ∧ (rateOne.toNat ≤ rate.toNat → amount.toInt ≤ gross.toInt) := by
  have hone : rateOne.toUInt64.toNat = 1000000000 := rfl
  have hone' : rateOne.toNat = 1000000000 := rfl
  have hnonneg : 0 ≤ amount.toInt * rate.toNat := mul_nonneg hamount (natCast_nonneg _)
  unfold scaleRate at h
  rw [if_neg (by decide)] at h
  dsimp only at h
  rw [hone, tdiv_eq_ediv_of_nonneg hnonneg, tmod_eq_emod_of_nonneg hnonneg] at h
  have hparity : rateOne.toNat ≤ rate.toNat →
      amount.toInt ≤ amount.toInt * rate.toNat / 1000000000 := by
    intro hrate
    apply (Int.le_ediv_iff_mul_le (by decide)).mpr
    apply Int.mul_le_mul_of_nonneg_left _ hamount
    rw [hone'] at hrate
    exact_mod_cast hrate
  generalize hproduct : amount.toInt * rate.toNat = product at *
  generalize hq : product / 1000000000 = q at *
  generalize hr : product % 1000000000 = r at *
  obtain ⟨hrange, hgross⟩ := Option.ite_none_right_eq_some.mp h
  cases hgross
  rw [Int64.toInt_ofInt_of_le hrange.1 hrange.2]
  clear hrange h
  refine ⟨⟨?_, ?_⟩, ?_⟩
  . rw [hone', hproduct]
    split <;> (try split) <;> (try split) <;> omega
  . rw [hone', hproduct]
    split <;> (try split) <;> (try split) <;> omega
  intro hrate
  split <;> (try split) <;> (try split) <;> omega

theorem multiplyRate_some (hamount : 0 ≤ amount.toInt)
    (hrate : rateOne.toNat ≤ rate.toNat) (h : multiplyRate amount rate = some gross)
    : IsRounded amount.toInt rate.toNat gross.toInt ∧ amount.toInt ≤ gross.toInt := by
  unfold multiplyRate at h
  split at h
  . next hsame =>
    cases h
    refine ⟨?_, le_refl _⟩
    rcases hsame with rfl | rfl
    . exact ⟨by simp, by simp [rateOne]⟩
    . exact isRounded_parity _
  obtain ⟨hrounded, hle⟩ := scaleRate_some hamount h
  exact ⟨hrounded, hle hrate⟩

theorem rateOne_le_transferRateOf (issuance : Option MPTokenIssuanceData)
    : rateOne.toNat ≤ (transferRateOf issuance).toNat := by
  unfold transferRateOf
  cases issuance with
  | none => exact Nat.le_refl _
  | some issuance =>
    have hfee := issuance.transferFee.toNat_lt
    simp only [Option.elim_some]
    split
    . exact Nat.le_refl _
    have hfactor : (10000 : UInt32).toNat = 10000 := rfl
    have hone : rateOne.toNat = 1000000000 := rfl
    have hproduct : 10000 * issuance.transferFee.toNat % 2 ^ 32
        = 10000 * issuance.transferFee.toNat := Nat.mod_eq_of_lt (by omega)
    rw [UInt32.toNat_add, UInt32.toNat_mul, UInt16.toNat_toUInt32, hfactor, hone, hproduct,
      Nat.mod_eq_of_lt (by omega)]
    omega

namespace Book

noncomputable def gap (b : Book) : Int :=
  (b.issuance.elim 0 fun i => i.outstandingAmount.toNat : Nat) - ∑ᶠ account, b.held account

def Within (b : Book) : Prop :=
  ∀ issuance ∈ b.issuance, issuance.outstandingAmount ≤ maximumAmount issuance

structure NonIssuer (b : Book) (id : ID) (account : AccountID) : Prop where
  byID : account ≠ issuer id
  byIssuance : ∀ issuance ∈ b.issuance, account ≠ issuance.issuer

end Book

namespace Credited

variable (h : Credited b b' sender receiver value allowOverflow issuance newOutstanding)

include h

theorem gap : b'.gap = b.gap := by
  have hfinite : Finite AccountID := Accounting.finite_bytes 20
  have hsum := Accounting.finsum_transfer receiver sender
    (if receiver = issuance.issuer then 0 else value : Nat)
    (if sender = issuance.issuer then 0 else value : Nat) (f := b.held) (g := b'.held) (by
      intro account
      rw [h.held account]
      split <;> split <;> simp)
  have houtstanding := h.outstanding
  unfold Book.gap
  rw [h.before, h.after, hsum]
  dsimp only [Option.elim_some]
  split at houtstanding <;> split at houtstanding <;> simp only [*, if_true, if_false] <;> omega

theorem within (hlimit : sender = issuance.issuer → allowOverflow = false) (hwithin : b.Within)
    : b'.Within := by
  intro issuance' hissuance'
  rw [h.after] at hissuance'
  cases hissuance'
  change newOutstanding ≤ maximumAmount issuance
  by_cases hsender : sender = issuance.issuer
  . exact h.bounded hsender (hlimit hsender)
  have hle := hwithin issuance h.before
  have houtstanding := h.outstanding
  rw [if_neg hsender] at houtstanding
  apply UInt64.le_trans _ hle
  rw [UInt64.le_iff_toNat_le]
  omega

end Credited

structure Sent (b b' : Book) (id : ID) (sender receiver : AccountID) (amount gross : Int)
    (allowOverflow : Bool)
    : Prop where
  gap : b'.gap = b.gap
  held : ∀ account, account = sender ∨ account = receiver → b.NonIssuer id account →
    b'.held account = b.held account + (if account = receiver then amount else 0)
      - (if account = sender then gross else 0)
  within : b.Within → allowOverflow = false ∨ (b.NonIssuer id sender ∧ b.NonIssuer id receiver) →
    b'.Within

section Transfer

variable {id : ID} {amount gross : Int64}

theorem Sent.refl (h : sender = receiver ∨ amount = 0)
    : Sent b b id sender receiver amount.toInt amount.toInt allowOverflow where
  gap := rfl
  held := by
    intro account _ _
    rcases h with rfl | rfl
    . omega
    . simp
  within h _ := h

theorem Sent.of_credited (hamount : (amount.toUInt64.toNat : Int) = amount.toInt)
    (h : Credited b b' sender receiver amount.toUInt64.toNat allowOverflow issuance newOutstanding)
    (hissuer : sender = issuer id ∨ receiver = issuer id)
    : Sent b b' id sender receiver amount.toInt amount.toInt allowOverflow where
  gap := h.gap
  held := by
    intro account _ hholder
    have hother := hholder.byIssuance issuance h.before
    rw [h.held account, ← hamount]
    by_cases hreceiver : account = receiver
    . subst hreceiver
      by_cases hsender : account = sender
      . subst hsender
        simp
      . simp [hother, hsender]
    by_cases hsender : account = sender
    . subst hsender
      simp [hother, hreceiver]
    . simp [hreceiver, hsender]
  within := by
    intro hwithin hlimit
    apply h.within _ hwithin
    intro hself
    rcases hlimit with hlimit | ⟨hsender, _⟩
    . exact hlimit
    . exact absurd hself (hsender.byIssuance issuance h.before)

theorem Sent.of_two_credits (hamount : (amount.toUInt64.toNat : Int) = amount.toInt)
    (hgross : (gross.toUInt64.toNat : Int) = gross.toInt) (hle : amount.toInt ≤ gross.toInt)
    (hsender : sender ≠ issuer id) (hreceiver : receiver ≠ issuer id) (hne : sender ≠ receiver)
    (h₁ : Credited b b₁ (issuer id) receiver amount.toUInt64.toNat true issuance outstanding₁)
    (h₂ : Credited b₁ b' sender (issuer id) gross.toUInt64.toNat allowOverflow issuance₁ outstanding')
    : Sent b b' id sender receiver amount.toInt gross.toInt allowOverflow := by
  have hissuance : issuance₁ = { issuance with outstandingAmount := outstanding₁ } := by
    have hbefore := h₂.before
    rw [h₁.after] at hbefore
    exact (Option.some.inj hbefore).symm
  subst hissuance
  constructor
  . exact h₂.gap.trans h₁.gap
  . intro account haccount hholder
    have hother := hholder.byIssuance issuance h₁.before
    rw [h₂.held account, h₁.held account, ← hamount, ← hgross, if_neg hholder.byID,
      if_neg hholder.byID]
    rcases haccount with rfl | rfl
    . simp [hother, hne]
    . simp [hother, hne.symm]
  intro hwithin hlimit
  by_cases hself : issuer id = issuance.issuer
  . have hissued := h₁.outstanding
    have htaken := h₂.outstanding
    have hbound := hwithin issuance h₁.before
    rw [if_pos hself, if_neg (hself ▸ hreceiver)] at hissued
    rw [if_pos hself, if_neg (hself ▸ hsender)] at htaken
    intro issuance' hissuance'
    rw [h₂.after] at hissuance'
    cases hissuance'
    change outstanding' ≤ maximumAmount issuance
    apply UInt64.le_trans _ hbound
    rw [UInt64.le_iff_toNat_le]
    dsimp only at htaken
    omega
  apply h₂.within
  . intro hissuer
    rcases hlimit with hlimit | ⟨hholder, _⟩
    . exact hlimit
    . exact absurd hissuer (hholder.byIssuance issuance h₁.before)
  . exact h₁.within (fun h => absurd h hself) hwithin

section Send

variable {Blob σ : Type} [Codec Blob] [MPTRecords Blob] [LedgerView Blob σ]
variable {view : MapView Blob σ}

theorem isRounded_zero (rate : UInt32) : IsRounded (0 : Int64).toInt rate.toNat (0 : Int64).toInt :=
  ⟨by simp, by simp⟩

variable [Sha512Half]

def transferRateAt (id : ID) (s : σ) : UInt32 :=
  transferRateOf
    ((read (mptIssuance id) s).1.toOption.join.bind MPTRecords.parseMPTokenIssuance)

def sendRate (id : ID) (sender receiver : AccountID) (waiveFee : Bool) (s : σ) : UInt32 :=
  if sender = receiver ∨ sender = issuer id ∨ receiver = issuer id ∨ waiveFee = true then
    rateOne
  else
    transferRateAt id s

theorem grossAmount_done (h : Stands view m s)
    (hrun : (grossAmount id amount waiveFee).run step s = (.done gross, s'))
    : Stands view m s'
      ∧ (0 ≤ amount.toInt → IsRounded amount.toInt
            (if waiveFee = true then rateOne else transferRateAt id s).toNat gross.toInt
          ∧ amount.toInt ≤ gross.toInt) := by
  unfold grossAmount at hrun
  split at hrun
  . next hwaived =>
    cases hrun
    rw [if_pos hwaived]
    exact ⟨h, fun _ => ⟨isRounded_parity _, le_refl _⟩⟩
  . next hcharged =>
    obtain ⟨rate, s₁, hrate, hgross⟩ := run_bind_done hrun
    cases hrate
    obtain ⟨hmultiplied, rfl⟩ := run_ofOption_done.mp hgross
    rw [if_neg hcharged]
    refine ⟨⟨view.query_inv _ h.inv, (view.query_contents _ h.inv).trans h.contents⟩, ?_⟩
    intro hamount
    exact multiplyRate_some hamount (rateOne_le_transferRateOf _) hmultiplied

variable (hwrites : view.Writes) (hlawful : MPTRecords.Lawful Blob) (hkeys : KeysApart id)

include hwrites hlawful hkeys

theorem send_done (h : Stands view m s)
    (hrun : (send id sender receiver amount waiveFee allowOverflow).run step s
      = (.done gross, s'))
    : ∃ m', Stands view m' s'
      ∧ Sent (bookOf id m) (bookOf id m') id sender receiver amount.toInt gross.toInt allowOverflow
      ∧ IsRounded amount.toInt (sendRate id sender receiver waiveFee s).toNat gross.toInt
      ∧ amount.toInt ≤ gross.toInt := by
  unfold send at hrun
  split at hrun
  . next hnothing =>
    cases hrun
    refine ⟨m, h, Sent.refl hnothing, ?_, le_refl _⟩
    rcases hnothing with rfl | rfl
    . simp [sendRate, isRounded_parity]
    . exact isRounded_zero _
  . next hmoves =>
    rw [not_or] at hmoves
    split at hrun
    . next hissuer =>
      obtain ⟨_, s₁, hcredit, hrun⟩ := run_bind_done hrun
      cases hrun
      obtain ⟨m', h', hnonneg, hcases⟩ := credit_done hwrites hlawful hkeys h hcredit
      have hrate : sendRate id sender receiver waiveFee s = rateOne :=
        if_pos (.inr (hissuer.imp_right .inl))
      rw [hrate]
      rcases hcases with ⟨hzero | hself, _⟩ | ⟨_, issuance, newOutstanding, hcredited⟩
      . exact absurd hzero hmoves.2
      . exact absurd hself hmoves.1
      exact ⟨m', h', Sent.of_credited (toNat_toUInt64 hnonneg) hcredited hissuer,
        isRounded_parity _, le_refl _⟩
    . next hholders =>
      rw [not_or] at hholders
      obtain ⟨gross', s₁, hgross, hrun⟩ := run_bind_done hrun
      obtain ⟨h₁, hrounded⟩ := grossAmount_done h hgross
      obtain ⟨_, s₂, hissue, hrun⟩ := run_bind_done hrun
      obtain ⟨_, s₃, hreturn, hrun⟩ := run_bind_done hrun
      cases hrun
      obtain ⟨m₂, h₂, hnonneg, hissued⟩ := credit_done hwrites hlawful hkeys h₁ hissue
      obtain ⟨m', h', hnonneg', hreturned⟩ := credit_done hwrites hlawful hkeys h₂ hreturn
      obtain ⟨hrounded, hle⟩ := hrounded hnonneg
      have hrate : sendRate id sender receiver waiveFee s
          = if waiveFee = true then rateOne else transferRateAt id s := by
        simp [sendRate, hmoves.1, hholders.1, hholders.2]
      rw [hrate]
      rcases hissued with ⟨hzero | hself, _⟩ | ⟨_, issuance, outstanding₁, hissued⟩
      . exact absurd hzero hmoves.2
      . exact absurd hself.symm hholders.2
      rcases hreturned with ⟨hzero | hself, _⟩ | ⟨_, issuance₁, outstanding', hreturned⟩
      . exfalso
        apply hmoves.2
        apply Int64.toInt_inj.mp
        rw [hzero] at hle
        simp only [Int64.toInt_zero] at hle ⊢
        omega
      . exact absurd hself hholders.1
      exact ⟨m', h', Sent.of_two_credits (toNat_toUInt64 hnonneg) (toNat_toUInt64 hnonneg') hle
        hholders.1 hholders.2 hmoves.1 hissued hreturned, hrounded, hle⟩

end Send

end Transfer

section Supply

variable {id : ID} {Blob σ : Type} [Codec Blob] [MPTRecords Blob] [LedgerView Blob σ] [Sha512Half]

inductive Call where
  | credit (sender receiver : AccountID) (amount : Int64) (allowOverflow : Bool)
  | send (sender receiver : AccountID) (amount : Int64) (waiveFee allowOverflow : Bool)

def Call.allowOverflow : Call → Bool
  | .credit _ _ _ allowOverflow => allowOverflow
  | .send _ _ _ _ allowOverflow => allowOverflow

def Call.prog (id : ID) : Call → TableProg Blob Result Unit
  | .credit sender receiver amount allowOverflow =>
    MPT.credit id sender receiver amount allowOverflow
  | .send sender receiver amount waiveFee allowOverflow => do
    let _ ← MPT.send id sender receiver amount waiveFee allowOverflow
    return ()

inductive Succeeds (id : ID) : List Call → σ → σ → Prop where
  | nil (s : σ) : Succeeds id [] s s
  | cons {call : Call} {calls : List Call} {s s₁ s' : σ} {u : Unit}
      (head : (call.prog id).run step s = (.done u, s₁)) (tail : Succeeds id calls s₁ s')
      : Succeeds id (call :: calls) s s'

def bookAt (view : MapView Blob σ) (id : ID) (s : σ) : Book :=
  bookOf id (view.contents s)

structure Conserves (view : MapView Blob σ) (id : ID) : Prop where
  gap : ∀ {calls : List Call} {s s' : σ}, view.Inv s → Succeeds id calls s s' →
    (bookAt view id s').gap = (bookAt view id s).gap
  send : ∀ {s s' : σ} {sender receiver : AccountID} {amount gross : Int64}
    {waiveFee allowOverflow : Bool}, view.Inv s →
    (send id sender receiver amount waiveFee allowOverflow).run step s
      = (.done gross, s') →
    Sent (bookAt view id s) (bookAt view id s') id sender receiver amount.toInt gross.toInt
        allowOverflow
      ∧ IsRounded amount.toInt (sendRate id sender receiver waiveFee s).toNat gross.toInt
      ∧ amount.toInt ≤ gross.toInt
  within : ∀ {call : Call} {s s' : σ} {u : Unit}, view.Inv s →
    (call.prog id).run step s = (.done u, s') → call.allowOverflow = false →
    (bookAt view id s).Within → (bookAt view id s').Within

variable {view : MapView Blob σ}
variable (hwrites : view.Writes) (hlawful : MPTRecords.Lawful Blob) (hkeys : KeysApart id)

include hwrites hlawful hkeys

theorem call_done {call : Call} (h : view.Inv s)
    (hrun : (call.prog id).run step s = (.done u, s'))
    : view.Inv s' ∧ (bookAt view id s').gap = (bookAt view id s).gap
      ∧ (call.allowOverflow = false → (bookAt view id s).Within → (bookAt view id s').Within) := by
  cases call with
  | credit sender receiver amount allowOverflow =>
    obtain ⟨m', ⟨hinv, rfl⟩, _, ⟨_, hsame⟩ | ⟨_, issuance, newOutstanding, hcredited⟩⟩ :=
      credit_done hwrites hlawful hkeys (m := view.contents s) ⟨h, rfl⟩ hrun
    . unfold bookAt
      rw [hsame]
      exact ⟨hinv, rfl, fun _ h => h⟩
    . exact ⟨hinv, hcredited.gap, fun hlimit => hcredited.within fun _ => hlimit⟩
  | send sender receiver amount waiveFee allowOverflow =>
    obtain ⟨gross, s₁, hsend, hrest⟩ := run_bind_done hrun
    cases hrest
    obtain ⟨m', ⟨hinv, rfl⟩, hsent, _⟩ :=
      send_done hwrites hlawful hkeys (m := view.contents s) ⟨h, rfl⟩ hsend
    exact ⟨hinv, hsent.gap, fun hlimit hwithin => hsent.within hwithin (.inl hlimit)⟩

theorem conserves_supply
    : Conserves view id where
  gap := by
    intro calls s s' hinv hrun
    -- Each call keeps the gap and the invariant of the view.
    induction hrun with
    | nil s => rfl
    | cons head tail ih =>
      obtain ⟨hinv₁, hgap, _⟩ := call_done hwrites hlawful hkeys hinv head
      rw [ih hinv₁, hgap]
  send := by
    intro s s' sender receiver amount gross waiveFee allowOverflow hinv hrun
    obtain ⟨m', ⟨_, rfl⟩, hsent, hrounded, hle⟩ :=
      send_done hwrites hlawful hkeys (m := view.contents s) ⟨hinv, rfl⟩ hrun
    exact ⟨hsent, hrounded, hle⟩
  within := by
    intro call s s' u hinv hrun
    exact (call_done hwrites hlawful hkeys hinv hrun).2.2

end Supply

namespace Sample

inductive Entry where
  | issuance (data : MPTokenIssuanceData)
  | token (data : MPTokenData)
  deriving DecidableEq

def Entry.type : Entry → EntryType
  | .issuance _ => .mpTokenIssuance
  | .token _ => .mpToken

instance : Codec Entry where
  decodeType e := some e.type
  decodes type e := type == e.type
  previousTxnID _ _ := .ok none
  previousTxnLgrSeq _ _ := 0
  setPreviousTxn _ e _ _ := some e
  account _ _ := none
  destination _ _ := none
  lowLimitIssuer _ := none
  highLimitIssuer _ := none

instance : MPTRecords Entry where
  parseMPTokenIssuance
    | .issuance data => some data
    | .token _ => none
  serializeMPTokenIssuance data := some (.issuance data)
  parseMPToken
    | .token data => some data
    | .issuance _ => none
  serializeMPToken data := some (.token data)

theorem lawful_entry : MPTRecords.Lawful Entry where
  token := by
    rintro token data ⟨⟩
    exact ⟨rfl, rfl⟩
  issuance := by
    rintro issuance data ⟨⟩
    exact ⟨rfl, rfl⟩

-- A hash that keeps the length of its argument and what follows the first 34 bytes
@[reducible]
def sha512Half : Sha512Half where
  sum data := ofFn fun i =>
    if i.val = 0 then UInt8.ofNat data.length else data.getD (i.val + 33) 0

attribute [local instance] sha512Half

def id : ID := replicate 24 1

def account (n : UInt8) : AccountID := replicate 20 n

theorem getD_preimage (holder : AccountID) (i : Nat) (hi : i < 20)
    : (mpTokenByID id holder).key[i + 1] = holder[i] := by
  have hprefix : (indexPreimage spaceMPToken
      [(mptIssuance id).key.toList, holder.toList])
        = (putUint16 spaceMPToken ++ (mptIssuance id).key.toList)
          ++ holder.toList := by
    simp [indexPreimage]
  have hlength : (putUint16 spaceMPToken
      ++ (mptIssuance id).key.toList).length = 34 := by
    simp [putUint16]
  change (ofFn _)[i + 1] = holder[i]
  rw [getElem_ofFn, if_neg (by simp), hprefix, List.getD_eq_getElem?_getD,
    List.getElem?_append_right (by rw [hlength]; dsimp only; omega), hlength]
  simp [hi, show i + 1 + 33 - 34 = i by omega]

theorem first_sum (data : List UInt8)
    : (Sha512Half.sum data).toList.head? = some (UInt8.ofNat data.length) := by
  change (ofFn _).toList.head? = _
  rw [toList_ofFn, List.ofFn_succ]
  rfl

theorem keysApart_id : KeysApart id where
  holders := by
    intro a b hab
    apply Vector.ext
    intro i hi
    rw [← getD_preimage a i hi, ← getD_preimage b i hi]
    simp [hab]
  issuance := by
    intro a hab
    -- The two keys begin with the lengths of their preimages.
    have hfirst := congrArg (fun k : Hash256 => k.toList.head?) hab
    simp [mpTokenByID, mpToken, mptIssuance, indexHash,
      indexPreimage, putUint16, first_sum] at hfirst

def ledger : Ledger Entry := .ofEntries [
  ((mptIssuance id).key, .issuance {
    issuer := account 1
    outstandingAmount := 100
    transferFee := 10000
    maximumAmount := some 100 }),
  ((mpTokenByID id (account 2)).key, .token { mptAmount := 60 }),
  ((mpTokenByID id (account 3)).key, .token { mptAmount := 40 })]

abbrev view : MapView Entry (Ledger Entry) := Ledger.mapView fun _ => none

def payment : TableProg Entry Result Int64 :=
  send id (account 2) (account 3) 15 false false

-- 15 at the rate 1.1 is 16.5, and the tie goes to the even amount.
theorem payment_done : (payment.run step ledger).1 = .done 16 := by
  decide +kernel

theorem payment_conserves
    : view.Writes ∧ MPTRecords.Lawful Entry ∧ KeysApart id ∧ Conserves view id
      ∧ (bookAt view id (payment.run step ledger).2).Within :=
  have hconserves : Conserves view id :=
    conserves_supply (Ledger.writes_mapView _) lawful_entry keysApart_id
  have hwithin : (bookAt view id ledger).Within := by
    rintro issuance ⟨⟩
    decide
  ⟨Ledger.writes_mapView _, lawful_entry, keysApart_id, hconserves,
    (hconserves.send (show view.Inv ledger from rfl) (Prod.ext payment_done rfl)).1.within hwithin (.inl rfl)⟩

end Sample

end MPT
