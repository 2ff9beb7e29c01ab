import GoXrpl.Keylet.Impl.Keylet
import Mathlib.Data.Sym.Sym2

/-!
This module contains the objects that have a hashed key, one for every call of a constructor of
`keylet`, and what identifies each of them.
-/

namespace State
namespace Keylet

/--
The books that a directory can be asked for.
-/
inductive Book where
  | bookDir (takerPaysCurrency takerPaysIssuer takerGetsCurrency takerGetsIssuer : AccountID)
  | bookDirWithDomain
      (takerPaysCurrency takerPaysIssuer takerGetsCurrency takerGetsIssuer : AccountID)
      (domainID : Hash256)
  | bookBase (pays gets : BookSide) (domainID : Option Hash256)

inductive Object where
  | account (accountID : AccountID)
  | sponsorship (sponsor sponsee : AccountID)
  | fees
  | amendments
  | negativeUNL
  | ledgerHashes
  | ledgerHashesForSeq (ledgerSeq : UInt32)
  | bridge (door currency : AccountID)
  | xChainClaimID (bridge : XChainBridge) (sequence : UInt64)
  | xChainCreateAccountClaimID (bridge : XChainBridge) (sequence : UInt64)
  | offer (accountID : AccountID) (sequence : UInt32)
  | ownerDir (accountID : AccountID)
  -- page 0 of `DirPage` is not hashed
  | dirPage (rootKey : Hash256) (page : UInt64) (hpage : page ≠ 0)
  | ownerDirPage (accountID : AccountID) (page : UInt64)
  | escrow (accountID : AccountID) (sequence : UInt32)
  | check (accountID : AccountID) (sequence : UInt32)
  | signerList (accountID : AccountID)
  | ticket (accountID : AccountID) (ticketSeq : UInt32)
  | depositPreauth (owner authorized : AccountID)
  | depositPreauthCredentials (owner : AccountID) (credentials : List CredentialPair)
  | line (account1 account2 : AccountID) (currency : List UInt8)
  | book (book : Book)
  -- `Quality` of a book directory
  | quality (book : Book) (quality : UInt64)
  | nfTokenOffer (accountID : AccountID) (sequence : UInt32)
  | nftBuys (nftokenID : Hash256)
  | nftSells (nftokenID : Hash256)
  | payChannel (srcAccountID dstAccountID : AccountID) (sequence : UInt32)
  | ammAsset (asset1 asset2 : BookSide)
  | oracle (accountID : AccountID) (documentID : UInt32)
  | vault (ownerID : AccountID) (sequence : UInt32)
  | loanBroker (ownerID : AccountID) (sequence : UInt32)
  | loan (loanBrokerID : Hash256) (loanSeq : UInt32)
  | mptIssuance (mptID : Vector UInt8 24)
  | mpToken (issuanceKey : Hash256) (holder : AccountID)
  | mpTokenByID (mptID : Vector UInt8 24) (holder : AccountID)
  | did (accountID : AccountID)
  | credential (subject issuer : AccountID) (credentialType : List UInt8)
  | permissionedDomain (accountID : AccountID) (sequence : UInt32)
  | delegate (account authorizedAccount : AccountID)

inductive Space where
  | account
  | dirNode
  | rippleDir
  | offer
  | ownerDir
  | bookDir
  | skip
  | escrow
  | payChan
  | amendments
  | fees
  | ticket
  | signerList
  | check
  | depPreauth
  | depPreauthCred
  | nfTokenOff
  | nftBuyOffers
  | nftSellOffers
  | amm
  | bridge
  | xcClaimID
  | xcCreateAc
  | did
  | oracle
  | mptIssu
  | mpToken
  | credential
  | permDomain
  | negativeUNL
  | vault
  | delegate
  | loanBroker
  | loan
  | sponsorship
  deriving DecidableEq

def BookSide.isMPT : BookSide → Bool
  | issue _ _ => false
  | mpt _ => true

/--
What tells the objects of a space apart, up to the forms of the two accounts of a line, the assets of a
pool and the credentials of a preauthorization.
-/
abbrev FieldsOf (Accounts Assets Credentials : Type) : Space → Type
  | .account | .ownerDir | .signerList | .did => AccountID
  | .offer | .escrow | .ticket | .check | .nfTokenOff | .oracle | .vault | .loanBroker
  | .permDomain => AccountID × UInt32
  | .sponsorship | .depPreauth | .delegate | .bridge => AccountID × AccountID
  | .fees | .amendments | .negativeUNL => Unit
  -- the rolling list, or the list of a chunk of 65536 ledgers
  | .skip => Option UInt32
  | .dirNode => Hash256 × UInt64
  | .rippleDir => Accounts × AccountID
  | .bookDir => BookSide × BookSide × Option Hash256
  | .payChan => AccountID × AccountID × UInt32
  | .depPreauthCred => AccountID × Credentials
  | .nftBuyOffers | .nftSellOffers => Hash256
  | .amm => Assets
  | .xcClaimID | .xcCreateAc => XChainBridge × UInt64
  | .mptIssu => Vector UInt8 24
  | .mpToken => Hash256 × AccountID
  | .credential => AccountID × AccountID × List UInt8
  | .loan => Hash256 × UInt32

abbrev Identity := Σ space, FieldsOf (Sym2 AccountID) (Sym2 BookSide) (Set CredentialPair) space

def Book.sides : Book → BookSide × BookSide × Option Hash256
  | bookDir paysCurrency paysIssuer getsCurrency getsIssuer =>
    (.issue paysCurrency paysIssuer, .issue getsCurrency getsIssuer, none)
  | bookDirWithDomain paysCurrency paysIssuer getsCurrency getsIssuer domainID =>
    (.issue paysCurrency paysIssuer, .issue getsCurrency getsIssuer, some domainID)
  | bookBase pays gets domainID => (pays, gets, domainID)

-- `binary.BigEndian.Uint64`
def uint64 (bytes : List UInt8) : UInt64 :=
  .ofNat (bytes.foldl (fun n b => n * 256 + b.toNat) 0)

def getQuality (key : Hash256) : UInt64 :=
  uint64 (key.toList.drop 24)

variable [Sha512Half]

def Book.keylet : Book → Keylet
  | bookDir paysCurrency paysIssuer getsCurrency getsIssuer =>
    Keylet.bookDir paysCurrency paysIssuer getsCurrency getsIssuer
  | bookDirWithDomain paysCurrency paysIssuer getsCurrency getsIssuer domainID =>
    Keylet.bookDirWithDomain paysCurrency paysIssuer getsCurrency getsIssuer domainID
  | bookBase pays gets domainID => Keylet.bookBase pays gets domainID

namespace Object

def keylet : Object → Keylet
  | account accountID => Keylet.account accountID
  | sponsorship sponsor sponsee => Keylet.sponsorship sponsor sponsee
  | fees => Keylet.fees
  | amendments => Keylet.amendments
  | negativeUNL => Keylet.negativeUNL
  | ledgerHashes => Keylet.ledgerHashes
  | ledgerHashesForSeq ledgerSeq => Keylet.ledgerHashesForSeq ledgerSeq
  | bridge door currency => Keylet.bridge door currency
  | xChainClaimID b sequence => Keylet.xChainClaimID b sequence
  | xChainCreateAccountClaimID b sequence => Keylet.xChainCreateAccountClaimID b sequence
  | offer accountID sequence => Keylet.offer accountID sequence
  | ownerDir accountID => Keylet.ownerDir accountID
  | dirPage rootKey page _ => Keylet.dirPage rootKey page
  | ownerDirPage accountID page => Keylet.ownerDirPage accountID page
  | escrow accountID sequence => Keylet.escrow accountID sequence
  | check accountID sequence => Keylet.check accountID sequence
  | signerList accountID => Keylet.signerList accountID
  | ticket accountID ticketSeq => Keylet.ticket accountID ticketSeq
  | depositPreauth owner authorized => Keylet.depositPreauth owner authorized
  | depositPreauthCredentials owner credentials =>
    Keylet.depositPreauthCredentials owner credentials
  | line account1 account2 currency => Keylet.line account1 account2 currency
  | book b => b.keylet
  | quality b q => Keylet.quality b.keylet q
  | nfTokenOffer accountID sequence => Keylet.nfTokenOffer accountID sequence
  | nftBuys nftokenID => Keylet.nftBuys nftokenID
  | nftSells nftokenID => Keylet.nftSells nftokenID
  | payChannel srcAccountID dstAccountID sequence =>
    Keylet.payChannel srcAccountID dstAccountID sequence
  | ammAsset asset1 asset2 => Keylet.ammAsset asset1 asset2
  | oracle accountID documentID => Keylet.oracle accountID documentID
  | vault ownerID sequence => Keylet.vault ownerID sequence
  | loanBroker ownerID sequence => Keylet.loanBroker ownerID sequence
  | loan loanBrokerID loanSeq => Keylet.loan loanBrokerID loanSeq
  | mptIssuance mptID => Keylet.mptIssuance mptID
  | mpToken issuanceKey holder => Keylet.mpToken issuanceKey holder
  | mpTokenByID mptID holder => Keylet.mpTokenByID mptID holder
  | did accountID => Keylet.did accountID
  | credential subject issuer credentialType => Keylet.credential subject issuer credentialType
  | permissionedDomain accountID sequence => Keylet.permissionedDomain accountID sequence
  | delegate a authorizedAccount => Keylet.delegate a authorizedAccount

def fieldsOf (accounts : AccountID → AccountID → Accounts) (assets : BookSide → BookSide → Assets)
    (credentialsOf : List CredentialPair → Credentials)
    : Object → Σ space, FieldsOf Accounts Assets Credentials space
  | account accountID => ⟨.account, accountID⟩
  | sponsorship sponsor sponsee => ⟨.sponsorship, sponsor, sponsee⟩
  | fees => ⟨.fees, ()⟩
  | amendments => ⟨.amendments, ()⟩
  | negativeUNL => ⟨.negativeUNL, ()⟩
  | ledgerHashes => ⟨.skip, none⟩
  | ledgerHashesForSeq ledgerSeq => ⟨.skip, some (ledgerSeq >>> 16)⟩
  | bridge door currency => ⟨.bridge, door, currency⟩
  | xChainClaimID b sequence => ⟨.xcClaimID, b, sequence⟩
  | xChainCreateAccountClaimID b sequence => ⟨.xcCreateAc, b, sequence⟩
  | offer accountID sequence => ⟨.offer, accountID, sequence⟩
  | ownerDir accountID => ⟨.ownerDir, accountID⟩
  | dirPage rootKey page _ => ⟨.dirNode, rootKey, page⟩
  | ownerDirPage accountID page =>
    if page = 0 then ⟨.ownerDir, accountID⟩
    else ⟨.dirNode, (Keylet.ownerDir accountID).key, page⟩
  | escrow accountID sequence => ⟨.escrow, accountID, sequence⟩
  | check accountID sequence => ⟨.check, accountID, sequence⟩
  | signerList accountID => ⟨.signerList, accountID⟩
  | ticket accountID ticketSeq => ⟨.ticket, accountID, ticketSeq⟩
  | depositPreauth owner authorized => ⟨.depPreauth, owner, authorized⟩
  | depositPreauthCredentials owner credentials =>
    ⟨.depPreauthCred, owner, credentialsOf credentials⟩
  | line account1 account2 currency =>
    ⟨.rippleDir, accounts account1 account2, currencyBytes currency⟩
  | book b => ⟨.bookDir, b.sides⟩
  | quality b _ => ⟨.bookDir, b.sides⟩
  | nfTokenOffer accountID sequence => ⟨.nfTokenOff, accountID, sequence⟩
  | nftBuys nftokenID => ⟨.nftBuyOffers, nftokenID⟩
  | nftSells nftokenID => ⟨.nftSellOffers, nftokenID⟩
  | payChannel srcAccountID dstAccountID sequence =>
    ⟨.payChan, srcAccountID, dstAccountID, sequence⟩
  | ammAsset asset1 asset2 => ⟨.amm, assets asset1 asset2⟩
  | oracle accountID documentID => ⟨.oracle, accountID, documentID⟩
  | vault ownerID sequence => ⟨.vault, ownerID, sequence⟩
  | loanBroker ownerID sequence => ⟨.loanBroker, ownerID, sequence⟩
  | loan loanBrokerID loanSeq => ⟨.loan, loanBrokerID, loanSeq⟩
  | mptIssuance mptID => ⟨.mptIssu, mptID⟩
  | mpToken issuanceKey holder => ⟨.mpToken, issuanceKey, holder⟩
  | mpTokenByID mptID holder => ⟨.mpToken, (Keylet.mptIssuance mptID).key, holder⟩
  | did accountID => ⟨.did, accountID⟩
  | credential subject issuer credentialType => ⟨.credential, subject, issuer, credentialType⟩
  | permissionedDomain accountID sequence => ⟨.permDomain, accountID, sequence⟩
  | delegate a authorizedAccount => ⟨.delegate, a, authorizedAccount⟩

def identity : Object → Identity :=
  fieldsOf (s(·, ·)) (s(·, ·)) fun credentials => { c | c ∈ credentials }

def bookQuality : Object → Option UInt64
  | book b => some (getQuality b.keylet.key)
  | quality _ q => some q
  | _ => none

def parent : Object → Option Object
  | ownerDirPage accountID _ => some (ownerDir accountID)
  | mpTokenByID mptID _ => some (mptIssuance mptID)
  | _ => none

structure SameIdentity (o o' : Object) : Prop where
  identity : o.identity = o'.identity
  quality : o.bookQuality = o'.bookQuality
  parent : ∀ p ∈ o.parent, ∀ p' ∈ o'.parent, p.identity = p'.identity

end Object

end Keylet
end State
