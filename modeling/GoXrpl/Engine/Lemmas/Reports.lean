import GoXrpl.Engine.Impl.Apply

open State ApplyState Program Prog.FailsWith

namespace Engine

open Ter

def Unreported (config : Config) (result : Result) : Prop :=
  isApplied result = false
    ∨ isTec result = true ∧ config.applyFlags.failHard = true
    ∨ isTec result = true ∧ config.applyFlags.retry = true ∧ isReapplyOnRetryTec result = false

def Rejects (r : Result) : Prop :=
  r = tefINTERNAL ∨ r = tefBAD_LEDGER

theorem Rejects.tefINTERNAL
    : Rejects Ter.tefINTERNAL := .inl rfl

theorem Rejects.tefBAD_LEDGER
    : Rejects Ter.tefBAD_LEDGER := .inr rfl

theorem Rejects.unreported (h : Rejects r) (config : Config) : Unreported config r := by
  refine .inl ?_
  rcases h with rfl | rfl
  . rfl
  . rfl

variable {Blob : Type} [Records Blob]

theorem writeAccount_rejects (st : ApplyState Blob) (account : AccountRoot)
    : (writeAccount st account).FailsWith Rejects := by
  unfold writeAccount
  apply bind (ofOption _ .tefINTERNAL)
  intro data
  exact mapError _ _ fun _ => .tefINTERNAL

def Transaction.PaysOwnFee (tx : Transaction Blob) : Prop :=
  isFeeSponsored tx.common = false ∧ tx.common.delegate = .empty

def ApplyState.Own (st : ApplyState Blob) : Prop :=
  st.hasExternalFeePayer = false

variable {st : ApplyState Blob}

theorem payExternalFeeOnTable_own (hown : st.Own) (config : Config)
    (account : AccountRoot) (chargedFee : UInt64) (recovery : Bool)
    : payExternalFeeOnTable config { st with account, chargedFee } recovery = pure chargedFee := by
  have hown' : ({ st with account, chargedFee } : ApplyState Blob).hasExternalFeePayer = false := hown
  unfold payExternalFeeOnTable
  rw [hown']
  rfl

variable [Sha512Half]

theorem eraseTicketEntry_rejects (accountID : AccountID) (ticketSequence : UInt32)
    : (eraseTicketEntry accountID ticketSequence : TableProg Blob Result Unit).FailsWith Rejects := by
  unfold eraseTicketEntry
  apply bind (mapError _ _ fun _ => .tefBAD_LEDGER)
  intro ticketData
  apply bind (ofOption _ .tefBAD_LEDGER)
  intro ticketData
  apply bind (ofOption _ .tefBAD_LEDGER)
  intro ownerNode
  apply bind (mapError _ _ fun _ => .tefBAD_LEDGER)
  intro success
  split
  . exact Rejects.tefBAD_LEDGER
  . exact mapError _ _ fun _ => .tefINTERNAL

theorem reset_rejects (hown : st.Own) (config : Config)
    : (reset config st).FailsWith fun failure => Rejects failure.result := by
  apply Prog.FailsWith.bind
  . unfold consumeTicketForRecovery
    split
    . trivial
    . exact (eraseTicketEntry_rejects _ _).mapErrorTo _ fun _ h => h
  intro _
  apply bind (ofOption _ .tefINTERNAL)
  intro account
  apply Prog.FailsWith.bind
  . unfold writeRecoveryAccount
    apply Prog.FailsWith.bind
    . exact (writeAccount_rejects _ _).mapErrorTo _ fun _ h => h
    intro _
    trivial
  intro chargedFee
  rw [payExternalFeeOnTable_own hown]
  trivial

theorem chargeBeforeApply_rejects (hown : st.Own) (config : Config)
    : (chargeBeforeApply config st).FailsWith Rejects := by
  apply Prog.FailsWith.bind
  . unfold applyPreApplyAccountChanges
    apply Prog.FailsWith.bind (writeAccount_rejects _ _)
    intro _
    trivial
  intro account
  rw [payExternalFeeOnTable_own hown]
  apply Prog.FailsWith.bind
  . trivial
  intro chargedFee
  apply Prog.FailsWith.bind
  . unfold consumeTicket
    split
    . trivial
    apply Prog.FailsWith.bind (eraseTicketEntry_rejects _ _)
    intro _
    apply Prog.FailsWith.bind (writeAccount_rejects _ _)
    intro _
    trivial
  intro account
  trivial

end Engine
