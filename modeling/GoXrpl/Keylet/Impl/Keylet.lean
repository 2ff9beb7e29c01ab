import GoXrpl.State.Impl.Entry
import Mathlib.Data.List.Sort

/-!
This module contains the package `keylet`: where each ledger entry is stored. Go strings are lists
of bytes.
-/

-- `binary.BigEndian.PutUint16`, `PutUint32` and `PutUint64`
open Vector

def putUint16 (n : UInt16) : List UInt8 :=
  [(n >>> 8).toUInt8, n.toUInt8]

def putUint32 (n : UInt32) : List UInt8 :=
  [(n >>> 24).toUInt8, (n >>> 16).toUInt8, (n >>> 8).toUInt8, n.toUInt8]

def putUint64 (n : UInt64) : List UInt8 :=
  [(n >>> 56).toUInt8, (n >>> 48).toUInt8, (n >>> 40).toUInt8, (n >>> 32).toUInt8,
   (n >>> 24).toUInt8, (n >>> 16).toUInt8, (n >>> 8).toUInt8, n.toUInt8]

namespace State
namespace Keylet

def spaceAccount : UInt16 := 0x61 -- a
def spaceDirNode : UInt16 := 0x64 -- d
def spaceRippleDir : UInt16 := 0x72 -- r
def spaceOffer : UInt16 := 0x6f -- o
def spaceOwnerDir : UInt16 := 0x4f -- O
def spaceBookDir : UInt16 := 0x42 -- B
def spaceSkip : UInt16 := 0x73 -- s
def spaceEscrow : UInt16 := 0x75 -- u
def spacePayChan : UInt16 := 0x78 -- x
def spaceAmendments : UInt16 := 0x66 -- f
def spaceFees : UInt16 := 0x65 -- e
def spaceTicket : UInt16 := 0x54 -- T
def spaceSignerList : UInt16 := 0x53 -- S
def spaceCheck : UInt16 := 0x43 -- C
def spaceDepPreauth : UInt16 := 0x70 -- p
def spaceDepPreauthCred : UInt16 := 0x50 -- P
def spaceNFTokenOff : UInt16 := 0x71 -- q
def spaceNFTBuyOffers : UInt16 := 0x68 -- h
def spaceNFTSellOffers : UInt16 := 0x69 -- i
def spaceAMM : UInt16 := 0x41 -- A
def spaceBridge : UInt16 := 0x48 -- H
def spaceXCClaimID : UInt16 := 0x51 -- Q
def spaceXCCreateAc : UInt16 := 0x4b -- K
def spaceDID : UInt16 := 0x49 -- I
def spaceOracle : UInt16 := 0x52 -- R
def spaceMPTIssu : UInt16 := 0x7e -- ~
def spaceMPToken : UInt16 := 0x74 -- t
def spaceCredential : UInt16 := 0x44 -- D
def spacePermDomain : UInt16 := 0x6d -- m
def spaceNegativeUNL : UInt16 := 0x4e -- N
def spaceVault : UInt16 := 0x56 -- V
def spaceDelegate : UInt16 := 0x45 -- E
def spaceLoanBroker : UInt16 := 0x6c -- l
def spaceLoan : UInt16 := 0x4c -- L
def spaceSponsorship : UInt16 := 0x3e -- >

variable [Sha512Half]

def indexPreimage (space : UInt16) (data : List (List UInt8)) : List UInt8 :=
  putUint16 space ++ data.flatten

def indexHash (space : UInt16) (data : List (List UInt8)) : Hash256 :=
  Sha512Half.sum (indexPreimage space data)

def account (accountID : AccountID) : Keylet where
  type := .of .accountRoot
  key := indexHash spaceAccount [accountID.toList]

def sponsorship (sponsor sponsee : AccountID) : Keylet where
  type := .of .sponsorship
  key := indexHash spaceSponsorship [sponsor.toList, sponsee.toList]

def fees : Keylet where
  type := .of .feeSettings
  key := indexHash spaceFees []

def amendments : Keylet where
  type := .of .amendments
  key := indexHash spaceAmendments []

def negativeUNL : Keylet where
  type := .of .negativeUNL
  key := indexHash spaceNegativeUNL []

def ledgerHashes : Keylet where
  type := .of .ledgerHashes
  key := indexHash spaceSkip []

def ledgerHashesForSeq (ledgerSeq : UInt32) : Keylet where
  type := .of .ledgerHashes
  key := indexHash spaceSkip [putUint32 (ledgerSeq >>> 16)]

def bridge (door currency : AccountID) : Keylet where
  type := .of .bridge
  key := indexHash spaceBridge [door.toList, currency.toList]

structure XChainBridge where
  lockingDoor : AccountID
  lockingCurrency : AccountID
  lockingIssuer : AccountID
  issuingDoor : AccountID
  issuingCurrency : AccountID
  issuingIssuer : AccountID
  deriving DecidableEq

def XChainBridge.fields (bridge : XChainBridge) : List (List UInt8) :=
  [bridge.lockingDoor.toList, bridge.lockingCurrency.toList, bridge.lockingIssuer.toList,
   bridge.issuingDoor.toList, bridge.issuingCurrency.toList, bridge.issuingIssuer.toList]

def xChainClaimID (bridge : XChainBridge) (sequence : UInt64) : Keylet where
  type := .of .xChainOwnedClaimID
  key := indexHash spaceXCClaimID (bridge.fields ++ [putUint64 sequence])

def xChainCreateAccountClaimID (bridge : XChainBridge) (sequence : UInt64) : Keylet where
  type := .of .xChainOwnedCreateAccountClaimID
  key := indexHash spaceXCCreateAc (bridge.fields ++ [putUint64 sequence])

def offer (accountID : AccountID) (sequence : UInt32) : Keylet where
  type := .of .offer
  key := indexHash spaceOffer [accountID.toList, putUint32 sequence]

def ownerDir (accountID : AccountID) : Keylet where
  type := .of .directoryNode
  key := indexHash spaceOwnerDir [accountID.toList]

def dirPage (rootKey : Hash256) (page : UInt64) : Keylet where
  type := .of .directoryNode
  key := if page = 0 then rootKey else indexHash spaceDirNode [rootKey.toList, putUint64 page]

def ownerDirPage (accountID : AccountID) (page : UInt64) : Keylet :=
  dirPage (ownerDir accountID).key page

def escrow (accountID : AccountID) (sequence : UInt32) : Keylet where
  type := .of .escrow
  key := indexHash spaceEscrow [accountID.toList, putUint32 sequence]

def check (accountID : AccountID) (sequence : UInt32) : Keylet where
  type := .of .check
  key := indexHash spaceCheck [accountID.toList, putUint32 sequence]

def signerList (accountID : AccountID) : Keylet where
  type := .of .signerList
  key := indexHash spaceSignerList [accountID.toList, putUint32 0]

def ticket (accountID : AccountID) (ticketSeq : UInt32) : Keylet where
  type := .of .ticket
  key := indexHash spaceTicket [accountID.toList, putUint32 ticketSeq]

def depositPreauth (owner authorized : AccountID) : Keylet where
  type := .of .depositPreauth
  key := indexHash spaceDepPreauth [owner.toList, authorized.toList]

structure CredentialPair where
  issuer : AccountID
  credentialType : List UInt8
  deriving DecidableEq

def CredentialPair.notAfter (a b : CredentialPair) : Bool :=
  if a.issuer = b.issuer then
    !decide (b.credentialType < a.credentialType)
  else
    !decide (b.issuer < a.issuer)

-- The loop of `DepositPreauthCredentials` that leaves out a pair equal to the one before it
def dedupSorted : Option CredentialPair → List CredentialPair → List CredentialPair
  | _, [] => []
  | prev, c :: rest => if prev = some c then dedupSorted prev rest else c :: dedupSorted (some c) rest

def CredentialPair.preimage (c : CredentialPair) : List UInt8 :=
  c.issuer.toList ++ c.credentialType

def CredentialPair.hash (c : CredentialPair) : Hash256 :=
  Sha512Half.sum c.preimage

def depositPreauthCredentials (owner : AccountID) (credentials : List CredentialPair) : Keylet where
  type := .of .depositPreauth
  key :=
    let sorted := credentials.insertionSort fun a b => a.notAfter b
    let hashes := (dedupSorted none sorted).map CredentialPair.hash
    indexHash spaceDepPreauthCred
      (owner.toList :: hashes.map (·.toList) ++ [putUint64 (.ofNat hashes.length)])

/--
ASCII letters, digits and `<>()\x7b\x7d[]|?!@#$%^&*`
-/
def isISOCurrencyChar (c : UInt8) : Bool :=
  (0x61 ≤ c && c ≤ 0x7a) || (0x41 ≤ c && c ≤ 0x5a) || (0x30 ≤ c && c ≤ 0x39)
    || [0x3c, 0x3e, 0x28, 0x29, 0x7b, 0x7d, 0x5b, 0x5d, 0x7c, 0x3f, 0x21, 0x40, 0x23, 0x24, 0x25,
        0x5e, 0x26, 0x2a].contains c

def noCurrency : AccountID := (replicate 20 0).set 19 0x01

def hexDigit (c : UInt8) : Option UInt8 :=
  if 0x30 ≤ c && c ≤ 0x39 then some (c - 0x30)
  else if 0x61 ≤ c && c ≤ 0x66 then some (c - 0x61 + 10)
  else if 0x41 ≤ c && c ≤ 0x46 then some (c - 0x41 + 10)
  else none

-- `hex.Decode`, which fails on a character that is no hexadecimal digit
def hexDecode : List UInt8 → Option (List UInt8)
  | [] => some []
  | [_] => none
  | hi :: lo :: rest => do
    let hi ← hexDigit hi
    let lo ← hexDigit lo
    let bytes ← hexDecode rest
    return (hi <<< 4 ||| lo) :: bytes

def currencyOfBytes (bytes : List UInt8) : AccountID :=
  ofFn fun i => bytes.getD i 0

def currencyBytes (currency : List UInt8) : AccountID :=
  if currency = [] ∨ currency = [0x58, 0x52, 0x50] then
    replicate 20 0
  else
    match currency with
    | [c0, c1, c2] =>
      if isISOCurrencyChar c0 && isISOCurrencyChar c1 && isISOCurrencyChar c2 then
        (((replicate 20 0).set 12 c0).set 13 c1).set 14 c2
      else
        noCurrency
    | currency =>
      if currency.length = 40 then
        match hexDecode currency with
        | some bytes => currencyOfBytes bytes
        | none => noCurrency
      else
        noCurrency

def line (account1 account2 : AccountID) (currency : List UInt8) : Keylet where
  type := .of .rippleState
  key :=
    let low := if account1 < account2 then account1 else account2
    let high := if account1 < account2 then account2 else account1
    indexHash spaceRippleDir [low.toList, high.toList, (currencyBytes currency).toList]

inductive BookSide where
  | issue (currency issuer : AccountID)
  | mpt (mptID : Vector UInt8 24)
  deriving DecidableEq

def bookDir (takerPaysCurrency takerPaysIssuer takerGetsCurrency takerGetsIssuer : AccountID)
    : Keylet where
  type := .of .directoryNode
  key := indexHash spaceBookDir [takerPaysCurrency.toList, takerGetsCurrency.toList,
    takerPaysIssuer.toList, takerGetsIssuer.toList]

def bookDirWithDomain
    (takerPaysCurrency takerPaysIssuer takerGetsCurrency takerGetsIssuer : AccountID)
    (domainID : Hash256)
    : Keylet where
  type := .of .directoryNode
  key := indexHash spaceBookDir [takerPaysCurrency.toList, takerGetsCurrency.toList,
    takerPaysIssuer.toList, takerGetsIssuer.toList, domainID.toList]

def quality (k : Keylet) (quality : UInt64) : Keylet where
  type := k.type
  key := ofFn fun i =>
    if i.val < 24 then k.key.get i else (putUint64 quality).getD (i.val - 24) 0

namespace BookSide

def asset : BookSide → List UInt8
  | issue currency _ => currency.toList
  | mpt mptID => mptID.toList

-- An MPT id holds its issuer already.
def issuer : BookSide → List (List UInt8)
  | issue _ issuer => [issuer.toList]
  | mpt _ => []

def mixedTag : BookSide → BookSide → List (List UInt8)
  | issue _ _, issue _ _ => []
  | issue _ _, mpt _ => [[0x01]]
  | mpt _, issue _ _ => [[0x02]]
  | mpt _, mpt _ => [[0x03]]

end BookSide

def bookFields (pays gets : BookSide) (domainID : Option Hash256) : List (List UInt8) :=
  BookSide.mixedTag pays gets ++ [pays.asset, gets.asset] ++ pays.issuer ++ gets.issuer
    ++ (domainID.map (·.toList)).toList

def bookBase (pays gets : BookSide) (domainID : Option Hash256) : Keylet :=
  quality
    { type := .of .directoryNode, key := indexHash spaceBookDir (bookFields pays gets domainID) } 0

def nfTokenOffer (accountID : AccountID) (sequence : UInt32) : Keylet where
  type := .of .nfTokenOffer
  key := indexHash spaceNFTokenOff [accountID.toList, putUint32 sequence]

def nftBuys (nftokenID : Hash256) : Keylet where
  type := .of .directoryNode
  key := indexHash spaceNFTBuyOffers [nftokenID.toList]

def nftSells (nftokenID : Hash256) : Keylet where
  type := .of .directoryNode
  key := indexHash spaceNFTSellOffers [nftokenID.toList]

def payChannel (srcAccountID dstAccountID : AccountID) (sequence : UInt32) : Keylet where
  type := .of .payChannel
  key := indexHash spacePayChan [srcAccountID.toList, dstAccountID.toList, putUint32 sequence]

def issue1LessEqualIssue2 (currency1 issuer1 currency2 issuer2 : AccountID) : Bool :=
  if currency1 ≠ currency2 then
    decide (currency1 < currency2)
  else if currency1 = replicate 20 0 then
    true
  else
    !decide (issuer2 < issuer1)

def bookSideLessEqual : BookSide → BookSide → Bool
  | .mpt lhs, .mpt rhs => !decide (rhs < lhs)
  | .mpt _, .issue _ _ => true
  | .issue _ _, .mpt _ => false
  | .issue currency1 issuer1, .issue currency2 issuer2 =>
    issue1LessEqualIssue2 currency1 issuer1 currency2 issuer2

-- The three layouts of `AMMAsset`; the smaller asset is an MPT if either of them is one.
def ammFields (minAsset maxAsset : BookSide) : List (List UInt8) :=
  match minAsset, maxAsset with
  | .mpt minID, .mpt maxID => [minID.toList, maxID.toList]
  | .mpt minID, .issue currency issuer => [minID.toList, issuer.toList, currency.toList]
  | .issue currency issuer, .issue currency' issuer' =>
    [issuer.toList, currency.toList, issuer'.toList, currency'.toList]
  | .issue currency issuer, .mpt _ =>
    [issuer.toList, currency.toList, (replicate 20 (0 : UInt8)).toList,
     (replicate 20 (0 : UInt8)).toList]

def ammAsset (asset1 asset2 : BookSide) : Keylet where
  type := .of .amm
  key :=
    let minAsset := if bookSideLessEqual asset1 asset2 then asset1 else asset2
    let maxAsset := if bookSideLessEqual asset1 asset2 then asset2 else asset1
    indexHash spaceAMM (ammFields minAsset maxAsset)

def oracle (accountID : AccountID) (documentID : UInt32) : Keylet where
  type := .of .oracle
  key := indexHash spaceOracle [accountID.toList, putUint32 documentID]

def vault (ownerID : AccountID) (sequence : UInt32) : Keylet where
  type := .of .vault
  key := indexHash spaceVault [ownerID.toList, putUint32 sequence]

def loanBroker (ownerID : AccountID) (sequence : UInt32) : Keylet where
  type := .of .loanBroker
  key := indexHash spaceLoanBroker [ownerID.toList, putUint32 sequence]

def loan (loanBrokerID : Hash256) (loanSeq : UInt32) : Keylet where
  type := .of .loan
  key := indexHash spaceLoan [loanBrokerID.toList, putUint32 loanSeq]

def mptIssuance (mptID : Vector UInt8 24) : Keylet where
  type := .of .mpTokenIssuance
  key := indexHash spaceMPTIssu [mptID.toList]

def mpToken (issuanceKey : Hash256) (holder : AccountID) : Keylet where
  type := .of .mpToken
  key := indexHash spaceMPToken [issuanceKey.toList, holder.toList]

def mpTokenByID (mptID : Vector UInt8 24) (holder : AccountID) : Keylet :=
  mpToken (mptIssuance mptID).key holder

def did (accountID : AccountID) : Keylet where
  type := .of .did
  key := indexHash spaceDID [accountID.toList]

def credential (subject issuer : AccountID) (credentialType : List UInt8) : Keylet where
  type := .of .credential
  key := indexHash spaceCredential [subject.toList, issuer.toList, credentialType]

def permissionedDomain (accountID : AccountID) (sequence : UInt32) : Keylet where
  type := .of .permissionedDomain
  key := indexHash spacePermDomain [accountID.toList, putUint32 sequence]

def delegate (account authorizedAccount : AccountID) : Keylet where
  type := .of .delegate
  key := indexHash spaceDelegate [account.toList, authorizedAccount.toList]

end Keylet
end State
