import GoXrpl.ApplyState.Impl.Table

/-!
This module contains the invariant checkers on fees, balances and types of the package `invariants`,
and what is known of entries that they accept.
-/

open State.Records

namespace Invariants

open State ApplyState Program

def initialXRP : UInt64 := 100000000000000000

structure InvariantEntry (Blob : Type) where
  key : Hash256
  -- `none` where `state.DecodeType` fails
  entryType : Option EntryType
  before : Option Blob
  after : Option Blob
  deleteFinal : Option Blob
  isDelete : Bool

-- The message of a violation goes to the log only.
structure InvariantViolation where
  name : String
  deriving DecidableEq

variable {Blob σ : Type} [Codec Blob] [Records Blob]

def collectEntry (key : Hash256) (entry : TrackedEntry Blob) : Option (InvariantEntry Blob) :=
  match entry.action with
  | .cache => none
  | .insert => some (mk none entry.current none false)
  | .modify => some (mk entry.original entry.current none false)
  | .erase => some (mk (entry.original.or entry.current) none entry.current true)
where
  mk (before after deleteFinal : Option Blob) (isDelete : Bool) : InvariantEntry Blob :=
    { key, before, after, deleteFinal, isDelete, entryType := (after.or before).bind Codec.decodeType }

def collectEntries (t : ApplyStateTable Blob σ) : List (InvariantEntry Blob) :=
  t.items.entries.filterMap fun item => collectEntry item.1 item.2

def checkTransactionFee (fee txDeclaredFee : UInt64) : Option InvariantViolation :=
  if fee ≥ initialXRP then
    some ⟨"TransactionFeeCheck"⟩
  else if fee > txDeclaredFee then
    some ⟨"TransactionFeeCheck"⟩
  else
    none

def checkXRPBalanceImage (data : Blob) : Option InvariantViolation :=
  match parseAccountRoot data with
  | none => some ⟨"XRPBalanceChecks"⟩
  | some acct => if acct.balance > initialXRP then some ⟨"XRPBalanceChecks"⟩ else none

def checkXRPBalances (entries : List (InvariantEntry Blob)) : Option InvariantViolation :=
  entries.findSome? fun e =>
    if e.entryType ≠ some .accountRoot then
      none
    else
      (e.before.toList ++ e.after.toList).findSome? checkXRPBalanceImage

def heldDrops : EntryType → Blob → Option Int
  | .accountRoot, data => (parseAccountRoot data).map fun acct => acct.balance.toNat
  | .escrow, data =>
    (parseEscrow data).map fun esc => if esc.isXRP then esc.amount.toNat else 0
  | .payChannel, data =>
    (parsePayChannel data).map fun pc => (pc.amount.toNat : Int) - pc.balance.toNat
  | .sponsorship, data =>
    (parseSponsorship data).map fun sponsorship =>
      if sponsorship.hasFeeAmount then sponsorship.feeAmount.toNat else 0
  | _, _ => some 0

def imageDrops (entryType : EntryType) : Option Blob → Option Int
  | none => some 0
  | some data => heldDrops entryType data

def netChange (e : InvariantEntry Blob) : Option Int :=
  match e.entryType with
  | none => some 0
  | some entryType => do
    let before ← imageDrops entryType e.before
    let afterImage :=
      if entryType = .accountRoot then
        if e.isDelete && e.deleteFinal.isSome then e.deleteFinal else e.after
      else
        if e.isDelete then none else e.after
    let after ← imageDrops entryType afterImage
    return after - before

def checkXRPNotCreated (fee : UInt64) (entries : List (InvariantEntry Blob))
    : Option InvariantViolation :=
  match entries.mapM netChange with
  | none => some ⟨"XRPNotCreated"⟩
  | some changes =>
    let total := changes.foldr (· + ·) 0
    if total > 0 then
      some ⟨"XRPNotCreated"⟩
    else if total ≠ -(fee.toNat : Int) then
      some ⟨"XRPNotCreated"⟩
    else
      none

-- The deprecated types are those without a model.
def validLedgerEntryType (entryType : EntryType) : Bool :=
  entryType.hasModel

def checkLedgerEntryTypesMatch (entries : List (InvariantEntry Blob)) : Option InvariantViolation :=
  if entries.all valid then none else some ⟨"LedgerEntryTypesMatch"⟩
where
  valid (e : InvariantEntry Blob) : Bool :=
    match e.before, e.after with
    | _, none => true
    | none, some after =>
      match Codec.decodeType after with
      | none => false
      | some afterType => validLedgerEntryType afterType
    | some before, some after =>
      match Codec.decodeType before, Codec.decodeType after with
      | some beforeType, some afterType => beforeType = afterType && validLedgerEntryType afterType
      | _, _ => false

abbrev Checkers (Blob : Type) :=
  Int → UInt64 → List (InvariantEntry Blob) → ViewProg Blob Empty (Option InvariantViolation)

def checkInvariants (others : Checkers Blob) (result : Int) (fee txDeclaredFee : UInt64)
    (entries : List (InvariantEntry Blob))
    : ViewProg Blob Empty (Option InvariantViolation) :=
  let violation := (checkTransactionFee fee txDeclaredFee).or <|
    (checkXRPBalances entries).or <|
    (checkXRPNotCreated fee entries).or <|
    checkLedgerEntryTypesMatch entries
  match violation with
  | some violation => .pure (some violation)
  | none => others result fee entries

structure Passes (fee txDeclaredFee : UInt64) (entries : List (InvariantEntry Blob)) : Prop where
  transactionFee : checkTransactionFee fee txDeclaredFee = none
  xrpBalances : checkXRPBalances entries = none
  xrpNotCreated : checkXRPNotCreated fee entries = none
  typesMatch : checkLedgerEntryTypesMatch entries = none

variable {entries : List (InvariantEntry Blob)}
variable {e : InvariantEntry Blob}

theorem passes_of_run
    (h : ((checkInvariants others result fee txDeclaredFee entries).run step s).1 = .done none)
    : Passes fee txDeclaredFee entries := by
  unfold checkInvariants at h
  dsimp only at h
  split at h
  . cases h
  . next hnone =>
    simp only [Option.or_eq_none_iff] at hnone
    exact ⟨hnone.1, hnone.2.1, hnone.2.2.1, hnone.2.2.2⟩

omit [Codec Blob] in
theorem netChange_of_type (entryType : EntryType)
    (htype : e.entryType = some entryType) (hnet : netChange e = some change)
    : ∃ before after, imageDrops entryType e.before = some before
      ∧ imageDrops entryType
          (if entryType = .accountRoot then
            if e.isDelete && e.deleteFinal.isSome then e.deleteFinal else e.after
          else
            if e.isDelete then none else e.after) = some after
      ∧ change = after - before := by
  unfold netChange at hnet
  simp only [htype, Option.bind_eq_bind, Option.pure_def, Option.bind_eq_some_iff] at hnet
  obtain ⟨before, hbefore, after, hafter, hchange⟩ := hnet
  exact ⟨before, after, hbefore, hafter, (Option.some.inj hchange).symm⟩

omit [Codec Blob] in
theorem netChange_of_type_none (htype : e.entryType = none) (hnet : netChange e = some change)
    : change = 0 := by
  unfold netChange at hnet
  rw [htype] at hnet
  exact (Option.some.inj hnet).symm

theorem Passes.valid (h : Passes fee txDeclaredFee entries) (he : e ∈ entries)
    : checkLedgerEntryTypesMatch.valid e = true := by
  have hmatch := h.typesMatch
  unfold checkLedgerEntryTypesMatch at hmatch
  split at hmatch
  . next hall => exact List.all_eq_true.mp hall e he
  . cases hmatch

theorem Passes.netChanges (h : Passes fee txDeclaredFee entries)
    : ∃ changes, entries.mapM netChange = some changes
      ∧ changes.foldr (· + ·) 0 = -(fee.toNat : Int) := by
  have hcreated := h.xrpNotCreated
  unfold checkXRPNotCreated at hcreated
  dsimp only at hcreated
  split at hcreated
  . cases hcreated
  . next changes hchanges =>
    refine ⟨changes, hchanges, ?_⟩
    split at hcreated
    . cases hcreated
    split at hcreated
    . cases hcreated
    . next hsum => exact not_not.mp hsum

theorem Passes.fee_lt (h : Passes fee txDeclaredFee entries) : fee.toNat < initialXRP.toNat := by
  have hfee := h.transactionFee
  unfold checkTransactionFee at hfee
  split at hfee
  . cases hfee
  . next hlt => exact UInt64.lt_iff_toNat_lt.mp (UInt64.not_le.mp hlt)

end Invariants
