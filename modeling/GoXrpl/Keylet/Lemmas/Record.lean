import GoXrpl.Framing.Basic
import GoXrpl.Keylet.Object

open Framing List State.Keylet.CredentialPair

theorem putUint16_injective : Function.Injective putUint16 := by
  intro n m h
  simp only [putUint16, cons.injEq, and_true, ← UInt8.toNat_inj, UInt16.toNat_toUInt8,
    UInt16.toNat_shiftRight, UInt16.reduceToNat, Nat.shiftRight_eq_div_pow, Nat.reduceMod,
    Nat.reducePow] at h
  have hn := n.toNat_lt
  have hm := m.toNat_lt
  apply UInt16.toNat_inj.mp
  omega

theorem putUint32_injective : Function.Injective putUint32 := by
  intro n m h
  simp only [putUint32, cons.injEq, and_true, ← UInt8.toNat_inj, UInt32.toNat_toUInt8,
    UInt32.toNat_shiftRight, UInt32.reduceToNat, Nat.shiftRight_eq_div_pow, Nat.reduceMod,
    Nat.reducePow] at h
  have hn := n.toNat_lt
  have hm := m.toNat_lt
  apply UInt32.toNat_inj.mp
  omega

theorem prefixFree_putUint16 : PrefixFree putUint16 :=
  .of_length 2 (fun _ => rfl) putUint16_injective

namespace State
namespace Keylet

theorem uint64_putUint64 (n : UInt64) : uint64 (putUint64 n) = n := by
  have hn := n.toNat_lt
  simp only [uint64, putUint64, foldl_cons, foldl_nil, UInt64.toNat_toUInt8,
    UInt64.toNat_shiftRight, UInt64.reduceToNat, Nat.shiftRight_eq_div_pow, Nat.reduceMod,
    Nat.reducePow]
  apply UInt64.toNat_inj.mp
  rw [UInt64.toNat_ofNat']
  omega

theorem prefixFree_putUint64 : PrefixFree putUint64 :=
  .of_length 8 (fun _ => rfl) (Function.LeftInverse.injective uint64_putUint64)

def Space.code : Space → UInt16
  | account => spaceAccount
  | dirNode => spaceDirNode
  | rippleDir => spaceRippleDir
  | offer => spaceOffer
  | ownerDir => spaceOwnerDir
  | bookDir => spaceBookDir
  | skip => spaceSkip
  | escrow => spaceEscrow
  | payChan => spacePayChan
  | amendments => spaceAmendments
  | fees => spaceFees
  | ticket => spaceTicket
  | signerList => spaceSignerList
  | check => spaceCheck
  | depPreauth => spaceDepPreauth
  | depPreauthCred => spaceDepPreauthCred
  | nfTokenOff => spaceNFTokenOff
  | nftBuyOffers => spaceNFTBuyOffers
  | nftSellOffers => spaceNFTSellOffers
  | amm => spaceAMM
  | bridge => spaceBridge
  | xcClaimID => spaceXCClaimID
  | xcCreateAc => spaceXCCreateAc
  | did => spaceDID
  | oracle => spaceOracle
  | mptIssu => spaceMPTIssu
  | mpToken => spaceMPToken
  | credential => spaceCredential
  | permDomain => spacePermDomain
  | negativeUNL => spaceNegativeUNL
  | vault => spaceVault
  | delegate => spaceDelegate
  | loanBroker => spaceLoanBroker
  | loan => spaceLoan
  | sponsorship => spaceSponsorship

def Space.all : List Space := (range 35).map Space.ofNat

theorem Space.mem_all (space : Space) : space ∈ all := by
  cases space <;> decide

theorem Space.code_injective : Function.Injective Space.code := by
  have hnodup : (all.map code).Nodup := by decide +kernel
  intro s t h
  exact inj_on_of_nodup_map hnodup (mem_all s) (mem_all t) h

abbrev SortedAssets := { p : BookSide × BookSide // p.2.isMPT → p.1.isMPT }

abbrev Record := FieldsOf (AccountID × AccountID) SortedAssets (List CredentialPair)

variable [Sha512Half]

def encodeCredentials (credentials : List CredentialPair) : List UInt8 :=
  ((credentials.map hash).map (·.toList)).flatten
    ++ putUint64 (.ofNat credentials.length)

def encode : (space : Space) → Record space → List UInt8
  | .account, a | .ownerDir, a | .did, a => a.toList
  | .signerList, a => a.toList ++ putUint32 0
  | .offer, (a, n) | .escrow, (a, n) | .ticket, (a, n) | .check, (a, n) | .nfTokenOff, (a, n)
  | .oracle, (a, n) | .vault, (a, n) | .loanBroker, (a, n) | .permDomain, (a, n) =>
    a.toList ++ putUint32 n
  | .sponsorship, (a, b) | .depPreauth, (a, b) | .delegate, (a, b) | .bridge, (a, b) =>
    a.toList ++ b.toList
  | .fees, _ | .amendments, _ | .negativeUNL, _ | .skip, none => []
  | .skip, some n => putUint32 n
  | .dirNode, (root, page) => root.toList ++ putUint64 page
  | .rippleDir, ((low, high), currency) => low.toList ++ (high.toList ++ currency.toList)
  | .bookDir, (pays, gets, domainID) => (bookFields pays gets domainID).flatten
  | .payChan, (a, b, n) => a.toList ++ (b.toList ++ putUint32 n)
  | .depPreauthCred, (owner, credentials) => owner.toList ++ encodeCredentials credentials
  | .nftBuyOffers, id | .nftSellOffers, id => id.toList
  | .amm, assets => (ammFields assets.val.1 assets.val.2).flatten
  | .xcClaimID, (b, n) | .xcCreateAc, (b, n) => b.fields.flatten ++ putUint64 n
  | .mptIssu, id => id.toList
  | .mpToken, (issuance, holder) => issuance.toList ++ holder.toList
  | .credential, (subject, issuer, type) => subject.toList ++ (issuer.toList ++ type)
  | .loan, (broker, n) => broker.toList ++ putUint32 n

section Layouts

omit [Sha512Half]

theorem domain_injective {d d' : Option Hash256}
    (h : (d.map (·.toList)).toList.flatten = (d'.map (·.toList)).toList.flatten)
    : d = d' := by
  have hlength := congrArg length h
  cases d <;> cases d' <;> simp at hlength
  . rfl
  . simpa [Vector.toList_inj] using h

theorem domain_length (d : Option Hash256)
    : (d.map (·.toList)).toList.flatten.length = 0
      ∨ (d.map (·.toList)).toList.flatten.length = 32 := by
  cases d <;> simp

theorem bookFields_injective
    (h : (bookFields pays gets d).flatten = (bookFields pays' gets' d').flatten)
    : pays = pays' ∧ gets = gets' ∧ d = d' := by
  have hlength := congrArg length h
  have hd := domain_length d
  have hd' := domain_length d'
  cases pays <;> cases gets <;> cases pays' <;> cases gets' <;>
    simp only [bookFields, BookSide.mixedTag, BookSide.asset, BookSide.issuer, flatten_cons,
      append_nil, nil_append, length_append, length_cons, Vector.length_toList, cons_append,
      cons.injEq] at h hlength <;>
    try omega
  . obtain ⟨rfl, h₁⟩ := prefixFree_vector 20 _ _ _ _ h
    obtain ⟨rfl, h₂⟩ := prefixFree_vector 20 _ _ _ _ h₁
    obtain ⟨rfl, h₃⟩ := prefixFree_vector 20 _ _ _ _ h₂
    obtain ⟨rfl, h₄⟩ := prefixFree_vector 20 _ _ _ _ h₃
    exact ⟨rfl, rfl, domain_injective h₄⟩
  . obtain ⟨rfl, h₁⟩ := prefixFree_vector 20 _ _ _ _ h.right
    obtain ⟨rfl, h₂⟩ := prefixFree_vector 24 _ _ _ _ h₁
    obtain ⟨rfl, h₃⟩ := prefixFree_vector 20 _ _ _ _ h₂
    exact ⟨rfl, rfl, domain_injective h₃⟩
  . cases h.left
  . cases h.left
  . obtain ⟨rfl, h₁⟩ := prefixFree_vector 24 _ _ _ _ h.right
    obtain ⟨rfl, h₂⟩ := prefixFree_vector 20 _ _ _ _ h₁
    obtain ⟨rfl, h₃⟩ := prefixFree_vector 20 _ _ _ _ h₂
    exact ⟨rfl, rfl, domain_injective h₃⟩
  obtain ⟨rfl, h₁⟩ := prefixFree_vector 24 _ _ _ _ h.right
  obtain ⟨rfl, h₂⟩ := prefixFree_vector 24 _ _ _ _ h₁
  exact ⟨rfl, rfl, domain_injective h₂⟩

theorem ammFields_injective {p q : SortedAssets}
    (h : (ammFields p.val.1 p.val.2).flatten = (ammFields q.val.1 q.val.2).flatten)
    : p = q := by
  obtain ⟨⟨a, b⟩, hp⟩ := p
  obtain ⟨⟨c, d⟩, hq⟩ := q
  have hlength := congrArg length h
  apply Subtype.ext
  cases a <;> cases b <;> cases c <;> cases d <;>
    simp only [ammFields, flatten_cons, flatten_nil, append_nil, length_append,
      Vector.length_toList, BookSide.isMPT, Nat.reduceAdd, Nat.reduceEqDiff, forall_const,
      Bool.false_eq_true] at h hlength hp hq
  . obtain ⟨rfl, h₁⟩ := prefixFree_vector 20 _ _ _ _ h
    obtain ⟨rfl, h₂⟩ := prefixFree_vector 20 _ _ _ _ h₁
    obtain ⟨rfl, h₃⟩ := prefixFree_vector 20 _ _ _ _ h₂
    rw [Vector.toList_inj.mp h₃]
  . obtain ⟨rfl, h₁⟩ := prefixFree_vector 24 _ _ _ _ h
    obtain ⟨rfl, h₂⟩ := prefixFree_vector 20 _ _ _ _ h₁
    rw [Vector.toList_inj.mp h₂]
  obtain ⟨rfl, h₁⟩ := prefixFree_vector 24 _ _ _ _ h
  rw [Vector.toList_inj.mp h₁]

theorem XChainBridge.prefixFree_fields : PrefixFree fun b : XChainBridge => b.fields.flatten := by
  intro b b' s t h
  cases b
  cases b'
  simp only [XChainBridge.fields, flatten_cons, flatten_nil, append_nil,
    append_assoc] at h
  obtain ⟨rfl, h₁⟩ := prefixFree_vector 20 _ _ _ _ h
  obtain ⟨rfl, h₂⟩ := prefixFree_vector 20 _ _ _ _ h₁
  obtain ⟨rfl, h₃⟩ := prefixFree_vector 20 _ _ _ _ h₂
  obtain ⟨rfl, h₄⟩ := prefixFree_vector 20 _ _ _ _ h₃
  obtain ⟨rfl, h₅⟩ := prefixFree_vector 20 _ _ _ _ h₄
  obtain ⟨rfl, h₆⟩ := prefixFree_vector 20 _ _ _ _ h₅
  exact ⟨rfl, h₆⟩

theorem CredentialPair.preimage_injective : Function.Injective CredentialPair.preimage := by
  intro c c' h
  obtain ⟨hissuer, htype⟩ := prefixFree_vector 20 _ _ _ _ h
  cases c
  cases c'
  congr

end Layouts

theorem encodeCredentials_hash (h : encodeCredentials l = encodeCredentials l')
    : l.map hash = l'.map hash := by
  have hlength := congrArg length h
  simp only [encodeCredentials, length_append, length_flatten, map_map,
    Function.comp_def, Vector.length_toList, map_const', sum_replicate, putUint64,
    length_cons, length_nil, smul_eq_mul] at hlength
  apply ((prefixFree_vector 32).flatten_map _ h).left
  rw [length_map, length_map]
  omega

theorem encodeCredentials_injective
    (hfree : Set.InjOn Sha512Half.sum
      { x | x ∈ l.map preimage ++ l'.map preimage })
    (h : encodeCredentials l = encodeCredentials l')
    : l = l' := by
  have hhashes := encodeCredentials_hash h
  have hlength := congrArg length hhashes
  rw [length_map, length_map] at hlength
  apply ext_getElem hlength
  intro i hi hi'
  apply preimage_injective
  apply hfree
  . exact mem_append_left _ (mem_map_of_mem (getElem_mem hi))
  . exact mem_append_right _ (mem_map_of_mem (getElem_mem hi'))
  have hget := congrArg (fun hashes => hashes[i]?) hhashes
  simpa [hi, hi', CredentialPair.hash] using hget

def hashedBefore : (space : Space) → Record space → List (List UInt8)
  | .depPreauthCred, (_, credentials) => credentials.map preimage
  | _, _ => []

theorem encode_injective (space : Space) {r r' : Record space}
    (hfree : Set.InjOn Sha512Half.sum { x | x ∈ hashedBefore space r ++ hashedBefore space r' })
    (h : encode space r = encode space r')
    : r = r' := by
  have hvector (n : Nat) := prefixFree_vector (γ := UInt8) n
  cases space with
  | account | ownerDir | did => exact (hvector 20).injective h
  | signerList => exact (hvector 20 _ _ _ _ h).left
  | offer | escrow | ticket | check | nfTokenOff | oracle | vault | loanBroker | permDomain =>
    exact (hvector 20).append_injective putUint32_injective h
  | sponsorship | depPreauth | delegate | bridge =>
    exact (hvector 20).append_injective (hvector 20).injective h
  | fees | amendments | negativeUNL => rfl
  | skip =>
    cases r <;> cases r'
    . rfl
    . cases h
    . cases h
    . rw [putUint32_injective h]
  | dirNode => exact (hvector 32).append_injective prefixFree_putUint64.injective h
  | rippleDir =>
    obtain ⟨hlow, hrest⟩ := hvector 20 _ _ _ _ h
    obtain ⟨hhigh, hcurrency⟩ := hvector 20 _ _ _ _ hrest
    exact Prod.ext (Prod.ext hlow hhigh) ((hvector 20).injective hcurrency)
  | bookDir =>
    obtain ⟨hpays, hgets, hdomain⟩ := bookFields_injective h
    exact Prod.ext hpays (Prod.ext hgets hdomain)
  | payChan =>
    exact (hvector 20).append_injective ((hvector 20).append_injective putUint32_injective) h
  | depPreauthCred =>
    obtain ⟨howner, hcredentials⟩ := hvector 20 _ _ _ _ h
    exact Prod.ext howner (encodeCredentials_injective hfree hcredentials)
  | nftBuyOffers | nftSellOffers => exact (hvector 32).injective h
  | amm => exact ammFields_injective h
  | xcClaimID | xcCreateAc =>
    exact XChainBridge.prefixFree_fields.append_injective prefixFree_putUint64.injective h
  | mptIssu => exact (hvector 24).injective h
  | mpToken => exact (hvector 32).append_injective (hvector 20).injective h
  | credential =>
    exact (hvector 20).append_injective ((hvector 20).append_injective Function.injective_id) h
  | loan => exact (hvector 32).append_injective putUint32_injective h

end Keylet
end State
