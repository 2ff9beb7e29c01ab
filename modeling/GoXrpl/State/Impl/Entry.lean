import GoXrpl.Basic

/-!
This module contains the ledger entries as the packages `keylet`, `entry` and `state` show them to
their users.
-/

namespace State

abbrev AccountID := Vector UInt8 20

inductive EntryType where
  | nfTokenOffer
  | check
  | did
  | negativeUNL
  | nfTokenPage
  | signerList
  | ticket
  | accountRoot
  | contract
  | directoryNode
  | amendments
  | generatorMap
  | ledgerHashes
  | bridge
  | nickname
  | offer
  | depositPreauth
  | xChainOwnedClaimID
  | rippleState
  | feeSettings
  | xChainOwnedCreateAccountClaimID
  | escrow
  | payChannel
  | amm
  | mpTokenIssuance
  | mpToken
  | oracle
  | credential
  | permissionedDomain
  | delegate
  | vault
  | loanBroker
  | loan
  | sponsorship
  deriving DecidableEq, Repr

def EntryType.hasModel : EntryType → Bool
  | .contract | .generatorMap | .nickname => false
  | _ => true

def EntryType.isSetter : EntryType → Bool
  | .ledgerHashes => false
  | typ => typ.hasModel

-- `TypeAny` and `TypeChild` are no types of entries, only constraints of a keylet.
inductive KeyletType where
  | any
  | child
  | of (entryType : EntryType)
  deriving DecidableEq, Repr

structure Keylet where
  type : KeyletType
  key : Hash256
  deriving DecidableEq, Repr

def Keylet.ofKey (key : Hash256) : Keylet where
  type := .any
  key := key

class Codec (Blob : Type) where
  /-- `state.DecodeType` -/
  decodeType : Blob → Option EntryType
  /-- Whether `Decode` of the model of the type accepts the entry. -/
  decodes : EntryType → Blob → Bool
  /-- `HasPreviousTxnID` and `GetPreviousTxnID` -/
  previousTxnID : EntryType → Blob → Except Unit (Option Hash256)
  /-- The second part of `PreviousTxn` -/
  previousTxnLgrSeq : EntryType → Blob → UInt32
  /-- `SetPreviousTxnIDValue`, `SetPreviousTxnLgrSeq` and then `Encode` -/
  setPreviousTxn : EntryType → Blob → Hash256 → UInt32 → Option Blob
  /-- `HasAccount` and `GetAccount`, where the model has them -/
  account : EntryType → Blob → Option AccountID
  /-- `HasDestination` and `GetDestination`, where the model has them -/
  destination : EntryType → Blob → Option AccountID
  /-- The decoded issuers of the low and the high limit of a trust line -/
  lowLimitIssuer : Blob → Option AccountID
  highLimitIssuer : Blob → Option AccountID

section

variable {Blob : Type} [Codec Blob]

def matchesKeyletType (k : Keylet) (data : Blob) : Bool :=
  match k.type with
  | .any => true
  | .child =>
    match Codec.decodeType data with
    | none => false
    | some entryType => entryType != .directoryNode
  | .of type =>
    match Codec.decodeType data with
    | none => false
    | some entryType => entryType == type

end

structure AccountRoot where
  balance : UInt64
  sequence : UInt32
  ownerCount : UInt32
  sponsoredOwnerCount : UInt32 := 0
  sponsoringOwnerCount : UInt32 := 0
  sponsoringAccountCount : UInt32 := 0
  hasSponsor : Bool := false
  accountTxnID : Hash256 := .zero
  hasAccountTxnID : Bool := false
  ticketCount : UInt32
  rest : List UInt8 := []
  deriving DecidableEq

structure DirectoryNode where
  indexes : List Hash256
  indexNext : UInt64
  indexPrevious : UInt64
  indexNextSet : Bool
  indexPreviousSet : Bool
  takerPaysCurrency : Vector UInt8 20
  takerGetsCurrency : Vector UInt8 20
  rest : List UInt8 := []
  deriving DecidableEq

namespace DirectoryNode

def setIndexNext (node : DirectoryNode) (page : UInt64) : DirectoryNode :=
  { node with indexNext := page, indexNextSet := true }

def setIndexPrevious (node : DirectoryNode) (page : UInt64) : DirectoryNode :=
  { node with indexPrevious := page, indexPreviousSet := true }

def isBookDir (node : DirectoryNode) : Bool :=
  node.takerPaysCurrency != Vector.replicate 20 0 || node.takerGetsCurrency != Vector.replicate 20 0

end DirectoryNode

structure Sponsorship where
  feeAmount : UInt64
  hasFeeAmount : Bool
  maxFee : UInt64
  hasMaxFee : Bool
  rest : List UInt8 := []
  deriving DecidableEq

structure Escrow where
  amount : UInt64
  isXRP : Bool
  deriving DecidableEq

structure PayChannel where
  amount : UInt64
  balance : UInt64
  deriving DecidableEq

class Records (Blob : Type) where
  parseAccountRoot : Blob → Option AccountRoot
  serializeAccountRoot : AccountRoot → Option Blob
  parseDirectoryNode : Blob → Option DirectoryNode
  serializeDirectoryNode : DirectoryNode → (isBookDir : Bool) → Option Blob
  parseSponsorship : Blob → Option Sponsorship
  serializeSponsorship : Sponsorship → Option Blob
  parseEscrow : Blob → Option Escrow
  parsePayChannel : Blob → Option PayChannel
  getOwnerNode : Blob → Option UInt64

end State
