import GoXrpl.MPT.Impl.Credit
import GoXrpl.State.Contents

open State Program Keylet LedgerView Function Prog Contents

namespace MPT

open Engine Engine.Ter

variable {value : UInt64} {account : AccountID}

theorem add_of_room (hvalue : value ≤ limit) (hroom : ¬ amount > limit - value)
    : (amount + value).toNat = amount.toNat + value.toNat ∧ amount + value ≤ limit := by
  have hle := UInt64.le_iff_toNat_le.mp (UInt64.not_lt.mp hroom)
  have hlimit := limit.toNat_lt
  rw [UInt64.toNat_sub_of_le _ _ hvalue] at hle
  rw [UInt64.le_iff_toNat_le] at hvalue
  have hsum : (amount + value).toNat = amount.toNat + value.toNat := by
    rw [UInt64.toNat_add]
    omega
  refine ⟨hsum, ?_⟩
  rw [UInt64.le_iff_toNat_le, hsum]
  omega

theorem le_maxUint64 (value : UInt64) : value ≤ 0xFFFFFFFFFFFFFFFF := by
  have hlt := value.toNat_lt
  rw [UInt64.le_iff_toNat_le, show (0xFFFFFFFFFFFFFFFF : UInt64).toNat = 2 ^ 64 - 1 from rfl]
  omega

theorem toInt_nonneg {amount : Int64} (h : ¬ amount < 0) : 0 ≤ amount.toInt := by
  rw [Int64.not_lt, Int64.le_iff_toInt_le] at h
  simpa using h

theorem toNat_toUInt64 {amount : Int64} (h : 0 ≤ amount.toInt)
    : (amount.toUInt64.toNat : Int) = amount.toInt := by
  have hcast : amount.toUInt64.toNat = amount.toBitVec.toNat := rfl
  have hint : amount.toInt = amount.toBitVec.toInt := rfl
  rw [hint, BitVec.toInt_eq_toNat_cond] at h
  rw [hcast, hint, BitVec.toInt_eq_toNat_cond]
  split at h
  . next hsmall => rw [if_pos hsmall]
  . omega

structure Book where
  issuance : Option MPTokenIssuanceData
  balance : AccountID → Option UInt64

def balanceChange (account : AccountID) (token : Option MPTokenData) (change : UInt64 → UInt64)
    (other : AccountID)
    : Int :=
  if other = account then
    token.elim 0 fun t => ((change t.mptAmount).toNat : Int) - t.mptAmount.toNat
  else
    0

namespace Book

def held (b : Book) (account : AccountID) : Int :=
  ((b.balance account).elim 0 UInt64.toNat : Nat)

theorem held_elim {b b' : Book}
    (change : UInt64 → UInt64) (htoken : ∀ t ∈ token, b.balance account = some t.mptAmount)
    (h : b'.balance = token.elim b.balance fun t =>
      update b.balance account (some (change t.mptAmount))) (other : AccountID)
    : b'.held other = b.held other + balanceChange account token change other := by
  unfold held balanceChange
  rw [h]
  cases token with
  | none => simp
  | some t =>
    by_cases heq : other = account
    . subst heq
      simp only [htoken t rfl, update_self, Option.elim_some, if_true]
      omega
    . simp [heq]

end Book

structure MPTRecords.Lawful (Blob : Type) [Codec Blob] [MPTRecords Blob] : Prop where
  token : ∀ (token : MPTokenData) (data : Blob), MPTRecords.serializeMPToken token = some data →
    (MPTRecords.parseMPToken data).map MPTokenData.mptAmount = some token.mptAmount
      ∧ Codec.decodeType data = some .mpToken
  issuance : ∀ (issuance : MPTokenIssuanceData) (data : Blob),
    MPTRecords.serializeMPTokenIssuance issuance = some data →
    (MPTRecords.parseMPTokenIssuance data).map (fun i => { i with rest := [] })
        = some { issuance with rest := [] }
      ∧ Codec.decodeType data = some .mpTokenIssuance

variable {Blob σ : Type} [Codec Blob] [LedgerView Blob σ] {view : MapView Blob σ} {m : Contents Blob}

theorem matchesKeyletType_of {type : EntryType} {data : Blob} (hk : k.type = .of type)
    (h : Codec.decodeType data = some type)
    : matchesKeyletType k data = true := by
  simp [matchesKeyletType, hk, h]

theorem readParsed_done {parse : Blob → Option α} (h : Stands view m s)
    (hrun : ((do
      let raw ← (Access.read k).mapError f
      let raw ← ofOption missing raw
      ofOption corrupt (parse raw)) : TableProg Blob Result α).run step s = (.done record, s'))
    : Stands view m s' ∧ ∃ data, m.find k = some data ∧ parse data = some record := by
  obtain ⟨raw, s₁, hread, hrest⟩ := run_bind_done hrun
  obtain ⟨hstands, rfl⟩ := h.read (run_mapError_done.mp hread)
  obtain ⟨data, s₂, hdata, hparse⟩ := run_bind_done hrest
  obtain ⟨hfound, rfl⟩ := run_ofOption_done.mp hdata
  obtain ⟨hrecord, rfl⟩ := run_ofOption_done.mp hparse
  exact ⟨hstands, data, hfound, hrecord⟩

variable [MPTRecords Blob] [Sha512Half]

structure KeysApart (id : ID) : Prop where
  holders : ∀ a b, (Keylet.mpTokenByID id a).key = (Keylet.mpTokenByID id b).key → a = b
  issuance : ∀ a, (Keylet.mpTokenByID id a).key ≠ (Keylet.mptIssuance id).key

def bookOf (id : ID) (m : Contents Blob) : Book where
  issuance := ((m.find (Keylet.mptIssuance id)).bind MPTRecords.parseMPTokenIssuance).map
    fun i => { i with rest := [] }
  balance account := ((m.find (Keylet.mpTokenByID id account)).bind MPTRecords.parseMPToken).map
    MPTokenData.mptAmount

variable {id : ID}

theorem readIssuance_done (h : Stands view m s)
    (hrun : (readIssuance id).run step s = (.done issuance, s'))
    : Stands view m s'
      ∧ (m.find (mptIssuance id)).bind MPTRecords.parseMPTokenIssuance = some issuance := by
  obtain ⟨hstands, data, hfound, hissuance⟩ := readParsed_done h hrun
  rw [hfound]
  exact ⟨hstands, hissuance⟩

theorem readHolding_done (h : Stands view m s)
    (hrun : (readHolding id account).run step s = (.done token, s'))
    : Stands view m s' ∧ (∃ data, m.find (mpTokenByID id account) = some data)
      ∧ (bookOf id m).balance account = some token.mptAmount := by
  obtain ⟨hstands, data, hfound, htoken⟩ := readParsed_done h hrun
  refine ⟨hstands, ⟨data, hfound⟩, ?_⟩
  simp [bookOf, hfound, htoken]

-- Between two contents, nothing of the token is written but the holding of one account.
structure OthersKept (id : ID) (account : AccountID) (m m' : Contents Blob) : Prop where
  holdings : ∀ other, other ≠ account → m'.find (mpTokenByID id other) = m.find (mpTokenByID id other)
  issuance : m'.find (mptIssuance id) = m.find (mptIssuance id)

structure Side (id : ID) (m : Contents Blob) (issuance : MPTokenIssuanceData) (account : AccountID)
    (token : Option MPTokenData)
    : Prop where
  isNone_iff : token.isNone ↔ account = issuance.issuer
  stored : ∀ t ∈ token, (∃ data, m.find (Keylet.mpTokenByID id account) = some data)
    ∧ (bookOf id m).balance account = some t.mptAmount

theorem debitSide_done (h : Stands view m s)
    (hrun : (debitSide id issuance sender value allowOverflow).run step s
      = (.done found, s'))
    : Stands view m s' ∧ Side id m issuance sender found.2
      ∧ found.1.toNat = issuance.outstandingAmount.toNat
          + (if sender = issuance.issuer then value.toNat else 0)
      ∧ (sender = issuance.issuer → allowOverflow = false → found.1 ≤ maximumAmount issuance)
      ∧ ∀ t ∈ found.2, value ≤ t.mptAmount := by
  unfold debitSide at hrun
  split at hrun
  . next hissuer =>
    dsimp only at hrun
    generalize hlimit : (if allowOverflow = true then 0xFFFFFFFFFFFFFFFF else maximumAmount issuance)
      = limit at hrun
    split at hrun
    . cases hrun
    . next hguard =>
      cases hrun
      obtain ⟨hvalue, hroom⟩ := not_or.mp hguard
      have hfits : value ≤ limit := by
        rw [← hlimit]
        split
        . exact le_maxUint64 value
        . exact UInt64.not_lt.mp hvalue
      obtain ⟨hsum, hle⟩ := add_of_room hfits hroom
      refine ⟨h, ⟨by simp [hissuer], by simp⟩, by rw [if_pos hissuer, hsum], ?_, by simp⟩
      rintro _ rfl
      rw [← hlimit] at hle
      exact hle
  . next hissuer =>
    obtain ⟨token, s₁, hread, hrest⟩ := run_bind_done hrun
    obtain ⟨hstands, hexists, hbalance⟩ := readHolding_done h hread
    split at hrest
    . cases hrest
    . next hfunds =>
      cases hrest
      refine ⟨hstands, ⟨by simp [hissuer], ?_⟩, by simp [hissuer], fun hself => absurd hself hissuer, ?_⟩
      . rintro t ⟨⟩
        exact ⟨hexists, hbalance⟩
      rintro t ⟨⟩
      exact UInt64.not_lt.mp hfunds

theorem creditSide_done (h : Stands view m s)
    (hrun : (creditSide id issuance receiver value newOutstanding).run step s
      = (.done found, s'))
    : Stands view m s' ∧ Side id m issuance receiver found.2
      ∧ found.1.toNat + (if receiver = issuance.issuer then value.toNat else 0)
          = newOutstanding.toNat
      ∧ found.1 ≤ newOutstanding
      ∧ ∀ t ∈ found.2, t.mptAmount.toNat + value.toNat < 2 ^ 64 := by
  unfold creditSide at hrun
  split at hrun
  . next hissuer =>
    split at hrun
    . cases hrun
    . next hguard =>
      cases hrun
      have hle := UInt64.not_lt.mp hguard
      have hsub := UInt64.toNat_sub_of_le _ _ hle
      rw [UInt64.le_iff_toNat_le] at hle
      refine ⟨h, ⟨by simp [hissuer], by simp⟩, ?_, ?_, by simp⟩
      . rw [if_pos hissuer]
        dsimp only
        omega
      rw [UInt64.le_iff_toNat_le]
      dsimp only
      omega
  . next hissuer =>
    obtain ⟨token, s₁, hread, hrest⟩ := run_bind_done hrun
    obtain ⟨hstands, hexists, hbalance⟩ := readHolding_done h hread
    split at hrest
    . cases hrest
    . next hfunds =>
      cases hrest
      refine ⟨hstands, ⟨by simp [hissuer], ?_⟩, by simp [hissuer], UInt64.le_refl _, ?_⟩
      . rintro t ⟨⟩
        exact ⟨hexists, hbalance⟩
      rintro t ⟨⟩
      rw [← (add_of_room (le_maxUint64 value) hfunds).1]
      exact UInt64.toNat_lt _

structure Credited (b b' : Book) (sender receiver : AccountID) (value : Nat) (allowOverflow : Bool)
    (issuance : MPTokenIssuanceData) (newOutstanding : UInt64)
    : Prop where
  before : b.issuance = some issuance
  after : b'.issuance = some { issuance with outstandingAmount := newOutstanding }
  outstanding : newOutstanding.toNat + (if receiver = issuance.issuer then value else 0)
    = issuance.outstandingAmount.toNat + (if sender = issuance.issuer then value else 0)
  bounded : sender = issuance.issuer → allowOverflow = false →
    newOutstanding ≤ maximumAmount issuance
  held : ∀ account, b'.held account
    = b.held account
      + (if account = receiver then if receiver = issuance.issuer then 0 else value else 0 : Nat)
      - (if account = sender then if sender = issuance.issuer then 0 else value else 0 : Nat)

theorem balanceChange_sub (h : Side id m issuance account token)
    (hle : ∀ t ∈ token, value ≤ t.mptAmount) (other : AccountID)
    : balanceChange account token (· - value) other
        = - (if other = account then if account = issuance.issuer then 0 else value.toNat else 0 : Nat) := by
  unfold balanceChange
  cases token with
  | none => simp [h.isNone_iff.mp rfl]
  | some t =>
    have hholder : account ≠ issuance.issuer := fun hself => by simpa using h.isNone_iff.mpr hself
    have hvalue := hle t rfl
    simp only [Option.elim_some, UInt64.toNat_sub_of_le _ _ hvalue, if_neg hholder]
    rw [UInt64.le_iff_toNat_le] at hvalue
    split <;> omega

theorem balanceChange_add (h : Side id m issuance account token)
    (hlt : ∀ t ∈ token, t.mptAmount.toNat + value.toNat < 2 ^ 64) (other : AccountID)
    : balanceChange account token (· + value) other
        = (if other = account then if account = issuance.issuer then 0 else value.toNat else 0 : Nat) := by
  unfold balanceChange
  cases token with
  | none => simp [h.isNone_iff.mp rfl]
  | some t =>
    have hholder : account ≠ issuance.issuer := fun hself => by simpa using h.isNone_iff.mpr hself
    have hvalue := hlt t rfl
    simp only [Option.elim_some, UInt64.toNat_add, Nat.mod_eq_of_lt hvalue, if_neg hholder]
    split <;> omega

variable (hwrites : view.Writes) (hlawful : MPTRecords.Lawful Blob) (hkeys : KeysApart id)

include hwrites hlawful hkeys

theorem writeHolding_done
    (h : Stands view m s) (hexists : ∃ data, m.find (mpTokenByID id account) = some data)
    (hrun : (writeHolding id account token).run step s = (.done u, s'))
    : ∃ m', Stands view m' s' ∧ OthersKept id account m m'
      ∧ (bookOf id m').balance
          = update (bookOf id m).balance account (some token.mptAmount) := by
  obtain ⟨found, hfound⟩ := hexists
  obtain ⟨data, s₁, hdata, hupdate⟩ := run_bind_done hrun
  obtain ⟨hserialize, rfl⟩ := run_ofOption_done.mp hdata
  obtain ⟨hparse, htype⟩ := hlawful.token token data hserialize
  have hstands := h.update hwrites (fits_of_find hfound) (run_mapError_done.mp hupdate)
  have hkept : OthersKept id account m (update m (mpTokenByID id account).key (some data)) := by
    constructor
    . intro other hne
      exact m.find_update_of_ne fun heq => hne (hkeys.holders _ _ heq)
    . exact m.find_update_of_ne (hkeys.issuance account).symm
  refine ⟨_, hstands, hkept, ?_⟩
  funext other
  by_cases heq : other = account
  . subst heq
    simp only [bookOf, update_self]
    rw [m.find_update_self (matchesKeyletType_of rfl htype), Option.bind_some, hparse]
  simp only [bookOf, update_of_ne heq]
  rw [hkept.holdings other heq]

theorem writeIssuance_done {issuance : MPTokenIssuanceData} (h : Stands view m s)
    (hexists : ∃ data, m.find (mptIssuance id) = some data)
    (hrun : (writeIssuance id issuance).run step s = (.done u, s'))
    : ∃ m', Stands view m' s' ∧ (bookOf id m').issuance = some { issuance with rest := [] }
      ∧ (bookOf id m').balance = (bookOf id m).balance := by
  obtain ⟨found, hfound⟩ := hexists
  obtain ⟨data, s₁, hdata, hupdate⟩ := run_bind_done hrun
  obtain ⟨hserialize, rfl⟩ := run_ofOption_done.mp hdata
  obtain ⟨hparse, htype⟩ := hlawful.issuance issuance data hserialize
  have hstands := h.update hwrites (fits_of_find hfound) (run_mapError_done.mp hupdate)
  refine ⟨_, hstands, ?_, ?_⟩
  . simp only [bookOf]
    rw [m.find_update_self (matchesKeyletType_of rfl htype), Option.bind_some, hparse]
  funext account
  simp only [bookOf]
  rw [m.find_update_of_ne (hkeys.issuance account)]

theorem writeBalance_done (h : Stands view m s)
    (hexists : ∀ t ∈ token, ∃ data, m.find (mpTokenByID id account) = some data)
    (hrun : (writeBalance id account token change).run step s = (.done u, s'))
    : ∃ m', Stands view m' s' ∧ OthersKept id account m m'
      ∧ (bookOf id m').balance
          = token.elim (bookOf id m).balance fun t =>
              update (bookOf id m).balance account (some (change t.mptAmount)) := by
  cases token with
  | none =>
    cases hrun
    exact ⟨m, h, ⟨fun _ _ => rfl, rfl⟩, rfl⟩
  | some t => exact writeHolding_done hwrites hlawful hkeys h (hexists t rfl) hrun

theorem writeCredit_done (h : Stands view m s) (hne : sender ≠ receiver)
    (hissuance : (m.find (mptIssuance id)).bind MPTRecords.parseMPTokenIssuance
      = some issuance)
    (hsender : Side id m issuance sender senderToken)
    (hreceiver : Side id m issuance receiver receiverToken)
    (hrun : (writeCredit id issuance sender receiver value senderToken receiverToken
      newOutstanding).run step s = (.done u, s'))
    : ∃ m', Stands view m' s'
      ∧ (bookOf id m').issuance = some { issuance with outstandingAmount := newOutstanding, rest := [] }
      ∧ ∀ account, (bookOf id m').held account = (bookOf id m).held account
        + balanceChange sender senderToken (· - value) account
        + balanceChange receiver receiverToken (· + value) account := by
  obtain ⟨_, s₁, hdebit, hrun⟩ := run_bind_done hrun
  obtain ⟨_, s₂, hcredit, hrun⟩ := run_bind_done hrun
  obtain ⟨m₁, h₁, hkept₁, hbalance₁⟩ :=
    writeBalance_done hwrites hlawful hkeys h (fun t ht => (hsender.stored t ht).1) hdebit
  have hreceiver₁ : (bookOf id m₁).balance receiver = (bookOf id m).balance receiver := by
    simp only [bookOf]
    rw [hkept₁.holdings receiver hne.symm]
  obtain ⟨m₂, h₂, hkept₂, hbalance₂⟩ :=
    writeBalance_done hwrites hlawful hkeys h₁
      (fun t ht => (hkept₁.holdings receiver hne.symm).symm ▸ (hreceiver.stored t ht).1) hcredit
  have hissuance₂ := hkept₂.issuance.trans hkept₁.issuance
  have hheld : ∀ account, (bookOf id m₂).held account = (bookOf id m).held account
      + balanceChange sender senderToken (· - value) account
      + balanceChange receiver receiverToken (· + value) account := by
    intro account
    rw [Book.held_elim (· + value) (fun t ht => hreceiver₁.trans (hreceiver.stored t ht).2) hbalance₂,
      Book.held_elim (· - value) (fun t ht => (hsender.stored t ht).2) hbalance₁]
  have hbefore : (bookOf id m₂).issuance = some { issuance with rest := [] } := by
    simp [bookOf, hissuance₂, hissuance]
  split at hrun
  . have hexists : ∃ data, m₂.find (mptIssuance id) = some data := by
      obtain ⟨data, hdata, _⟩ := Option.bind_eq_some_iff.mp hissuance
      exact ⟨data, hissuance₂.trans hdata⟩
    obtain ⟨m', h', hafter, hbalance'⟩ := writeIssuance_done hwrites hlawful hkeys h₂ hexists hrun
    refine ⟨m', h', hafter, ?_⟩
    intro account
    rw [← hheld account]
    unfold Book.held
    rw [hbalance']
  . next hsame =>
    cases hrun
    refine ⟨m₂, h₂, ?_, hheld⟩
    rw [hbefore, not_not.mp hsame]

theorem credit_done (h : Stands view m s)
    (hrun : (credit id sender receiver amount allowOverflow).run step s = (.done u, s'))
    : ∃ m', Stands view m' s' ∧ 0 ≤ amount.toInt
      ∧ (((amount = 0 ∨ sender = receiver) ∧ m' = m)
        ∨ (sender ≠ receiver ∧ ∃ issuance newOutstanding,
            Credited (bookOf id m) (bookOf id m') sender receiver amount.toUInt64.toNat allowOverflow
              issuance newOutstanding)) := by
  unfold credit at hrun
  split at hrun
  . cases hrun
  . next hnonneg =>
    have hamount := toInt_nonneg hnonneg
    split at hrun
    . next hnothing =>
      cases hrun
      exact ⟨m, h, hamount, .inl ⟨hnothing, rfl⟩⟩
    . next hmoves =>
      have hne : sender ≠ receiver := fun heq => hmoves (.inr heq)
      obtain ⟨issuance, s₁, hissuance, hrun⟩ := run_bind_done hrun
      obtain ⟨h₁, hparsed⟩ := readIssuance_done h hissuance
      obtain ⟨debit, s₂, hdebit, hrun⟩ := run_bind_done hrun
      obtain ⟨h₂, hsender, hdebited, hbounded, hfunds⟩ := debitSide_done h₁ hdebit
      obtain ⟨credit, s₃, hcredit, hrun⟩ := run_bind_done hrun
      obtain ⟨h₃, hreceiver, hcredited, hless, hroom⟩ := creditSide_done h₂ hcredit
      have hbefore : (bookOf id m).issuance = some { issuance with rest := [] } := by
        simp [bookOf, hparsed]
      obtain ⟨m', h', hafter, hheld⟩ :=
        writeCredit_done hwrites hlawful hkeys h₃ hne hparsed hsender hreceiver hrun
      refine ⟨m', h', hamount, .inr ⟨hne, _, credit.1, hbefore, hafter, ?_, ?_, ?_⟩⟩
      . rw [hcredited, hdebited]
      . intro hissuer hlimited
        exact UInt64.le_trans hless (hbounded hissuer hlimited)
      intro account
      rw [hheld account, balanceChange_sub hsender hfunds, balanceChange_add hreceiver hroom]
      dsimp only
      omega

end MPT
