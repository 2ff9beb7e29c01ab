import GoXrpl.Keylet.Lemmas.Record

open List Sha512Half

namespace State
namespace Keylet

def sortAssets (asset1 asset2 : BookSide) : SortedAssets where
  val := if bookSideLessEqual asset1 asset2 then (asset1, asset2) else (asset2, asset1)
  property := by
    split
    . next hle => cases asset1 <;> cases asset2 <;> simp_all [bookSideLessEqual, BookSide.isMPT]
    . next hle => cases asset1 <;> cases asset2 <;> simp_all [bookSideLessEqual, BookSide.isMPT]

theorem sortAssets_pair (asset1 asset2 : BookSide)
    : s((sortAssets asset1 asset2).val.1, (sortAssets asset1 asset2).val.2) = s(asset1, asset2) := by
  unfold sortAssets
  split
  . rfl
  . exact Sym2.eq_swap

def sortAccounts (account1 account2 : AccountID) : AccountID × AccountID :=
  if account1 < account2 then (account1, account2) else (account2, account1)

theorem sortAccounts_pair (account1 account2 : AccountID)
    : s((sortAccounts account1 account2).1, (sortAccounts account1 account2).2)
        = s(account1, account2) := by
  unfold sortAccounts
  split
  . rfl
  . exact Sym2.eq_swap

def normalize (credentials : List CredentialPair) : List CredentialPair :=
  dedupSorted none (credentials.insertionSort fun a b => a.notAfter b)

theorem mem_dedupSorted (prev : Option CredentialPair) (l : List CredentialPair)
    : c ∈ dedupSorted prev l ∨ prev = some c ↔ c ∈ l ∨ prev = some c := by
  induction l generalizing prev with
  | nil => rfl
  | cons d l ih =>
    simp only [dedupSorted]
    split
    . next hprev =>
      rw [ih, mem_cons, hprev]
      tauto
    have hrest := ih (some d)
    simp only [Option.some.injEq, eq_comm] at hrest
    simp only [mem_cons]
    tauto

theorem mem_normalize : c ∈ normalize credentials ↔ c ∈ credentials := by
  have h := mem_dedupSorted (c := c) none (credentials.insertionSort fun a b => a.notAfter b)
  simpa [normalize] using h

theorem quality_take (k : Keylet) (q : UInt64)
    : (quality k q).key.toList.take 24 = k.key.toList.take 24 := by
  apply ext_getElem
  . simp
  intro i hi _
  simp only [length_take, Vector.length_toList] at hi
  have hlt : i < 24 := by omega
  simp [quality, hlt, Vector.get]

theorem getQuality_quality (k : Keylet) (q : UInt64) : getQuality (quality k q).key = q := by
  have hdrop : (quality k q).key.toList.drop 24 = putUint64 q := by
    apply ext_getElem
    . simp [putUint64]
    intro i hi hi'
    simp only [getElem_drop, Vector.getElem_toList, quality, Vector.getElem_ofFn]
    rw [if_neg (by omega), Nat.add_sub_cancel_left, getD_eq_getElem?_getD,
      getElem?_eq_getElem hi', Option.getD_some]
  rw [getQuality, hdrop, uint64_putUint64]

section Keys

variable [Sha512Half]

abbrev AnyRecord := Σ space : Space, Record space

def AnyRecord.preimage (r : AnyRecord) : List UInt8 :=
  putUint16 r.1.code ++ encode r.1 r.2

def Record.fields : (space : Space) → Record space
    → FieldsOf (Sym2 AccountID) (Sym2 BookSide) (Set CredentialPair) space
  | .rippleDir, ((low, high), currency) => (s(low, high), currency)
  | .amm, assets => s(assets.val.1, assets.val.2)
  | .depPreauthCred, (owner, credentials) => (owner, { c | c ∈ credentials })
  | .account, r | .dirNode, r | .offer, r | .ownerDir, r | .bookDir, r | .skip, r | .escrow, r
  | .payChan, r | .amendments, r | .fees, r | .ticket, r | .signerList, r | .check, r
  | .depPreauth, r | .nfTokenOff, r | .nftBuyOffers, r | .nftSellOffers, r | .bridge, r
  | .xcClaimID, r | .xcCreateAc, r | .did, r | .oracle, r | .mptIssu, r | .mpToken, r
  | .credential, r | .permDomain, r | .negativeUNL, r | .vault, r | .delegate, r | .loanBroker, r
  | .loan, r | .sponsorship, r => r

def AnyRecord.identity (r : AnyRecord) : Identity :=
  ⟨r.1, Record.fields r.1 r.2⟩

theorem AnyRecord.preimage_injective {r r' : AnyRecord}
    (hfree : Set.InjOn sum { x | x ∈ hashedBefore r.1 r.2 ++ hashedBefore r'.1 r'.2 })
    (h : r.preimage = r'.preimage)
    : r = r' := by
  obtain ⟨space, r⟩ := r
  obtain ⟨space', r'⟩ := r'
  obtain ⟨hcode, hencode⟩ := prefixFree_putUint16 _ _ _ _ h
  have hspace : space = space' := Space.code_injective hcode
  subst hspace
  exact congrArg (Sigma.mk space) (encode_injective space hfree hencode)

namespace Object

def record : Object → AnyRecord :=
  fieldsOf sortAccounts sortAssets normalize

theorem identity_record (o : Object) : o.record.identity = o.identity := by
  cases o with
  | ownerDirPage accountID page =>
    simp only [record, identity, fieldsOf]
    split
    . rfl
    . rfl
  | depositPreauthCredentials owner credentials =>
    simp only [record, identity, fieldsOf, AnyRecord.identity, Record.fields, mem_normalize]
  | line account1 account2 currency =>
    simp only [record, identity, fieldsOf, AnyRecord.identity, Record.fields, sortAccounts_pair]
  | ammAsset asset1 asset2 =>
    simp only [record, identity, fieldsOf, AnyRecord.identity, Record.fields, sortAssets_pair]
  | _ => rfl

def preimage (o : Object) : List UInt8 :=
  o.record.preimage

theorem keylet_key (o : Object) (hbook : o.bookQuality = none)
    : o.keylet.key = Sha512Half.sum o.preimage := by
  cases o with
  | book | quality => cases hbook
  | ownerDirPage accountID page =>
    by_cases hpage : page = 0
    . have hrecord : (ownerDirPage accountID page).record = ⟨.ownerDir, accountID⟩ := if_pos hpage
      rw [preimage, hrecord]
      simp [keylet, Keylet.ownerDirPage, Keylet.dirPage, Keylet.ownerDir, hpage,
        AnyRecord.preimage, encode, Space.code, indexHash, indexPreimage]
    have hrecord : (ownerDirPage accountID page).record
        = ⟨.dirNode, (Keylet.ownerDir accountID).key, page⟩ := if_neg hpage
    rw [preimage, hrecord]
    simp [keylet, Keylet.ownerDirPage, Keylet.dirPage, hpage, AnyRecord.preimage, encode,
      Space.code, indexHash, indexPreimage]
  | dirPage rootKey page hpage =>
    simp [keylet, Keylet.dirPage, preimage, record, fieldsOf, hpage, AnyRecord.preimage, encode, Space.code,
      indexHash, indexPreimage]
  | depositPreauthCredentials owner credentials =>
    simp [keylet, Keylet.depositPreauthCredentials, preimage, record, fieldsOf, AnyRecord.preimage, encode,
      encodeCredentials, normalize, Space.code, indexHash, indexPreimage]
  | line account1 account2 currency =>
    by_cases hlt : account1 < account2 <;>
      simp [keylet, Keylet.line, preimage, record, fieldsOf, AnyRecord.preimage, encode, sortAccounts, hlt,
        Space.code, indexHash, indexPreimage]
  | ammAsset asset1 asset2 =>
    by_cases hle : bookSideLessEqual asset1 asset2 <;>
      simp [keylet, Keylet.ammAsset, preimage, record, fieldsOf, AnyRecord.preimage, encode, sortAssets, hle,
        Space.code, indexHash, indexPreimage]
  | _ =>
    simp [keylet, preimage, record, fieldsOf, AnyRecord.preimage, encode, Space.code, indexHash,
      indexPreimage, Keylet.account, Keylet.sponsorship, Keylet.fees, Keylet.amendments,
      Keylet.negativeUNL, Keylet.ledgerHashes, Keylet.ledgerHashesForSeq, Keylet.bridge,
      Keylet.xChainClaimID, Keylet.xChainCreateAccountClaimID, Keylet.offer, Keylet.ownerDir,
      Keylet.escrow, Keylet.check, Keylet.signerList, Keylet.ticket, Keylet.depositPreauth,
      Keylet.nfTokenOffer, Keylet.nftBuys, Keylet.nftSells, Keylet.payChannel, Keylet.oracle,
      Keylet.vault, Keylet.loanBroker, Keylet.loan, Keylet.mptIssuance, Keylet.mpToken,
      Keylet.mpTokenByID, Keylet.did, Keylet.credential, Keylet.permissionedDomain,
      Keylet.delegate]

end Object

theorem Book.keylet_take (b : Book)
    : b.keylet.key.toList.take 24 = (Sha512Half.sum (Object.book b).preimage).toList.take 24 := by
  cases b with
  | bookBase pays gets domainID => exact quality_take _ 0
  | _ =>
    simp [keylet, Keylet.bookDir, Keylet.bookDirWithDomain, Object.preimage, Object.record,
      Object.fieldsOf, AnyRecord.preimage, encode, sides, bookFields, BookSide.mixedTag, BookSide.asset,
      BookSide.issuer, Space.code, indexHash, indexPreimage]

namespace Object

theorem keylet_take (o : Object)
    : o.keylet.key.toList.take 24 = (Sha512Half.sum o.preimage).toList.take 24 := by
  cases o with
  | book b => exact b.keylet_take
  | quality b q => exact (quality_take b.keylet q).trans b.keylet_take
  | _ => rw [keylet_key _ rfl]

theorem bookQuality_eq (o : Object)
    : o.bookQuality
        = if o.identity.1 = .bookDir then some (getQuality o.keylet.key) else none := by
  cases o with
  | quality b q => exact congrArg some (getQuality_quality b.keylet q).symm
  | ownerDirPage accountID page =>
    simp only [identity, fieldsOf, bookQuality]
    split
    . rfl
    . rfl
  | _ => rfl

def hashedBefore : Object → List (List UInt8)
  | depositPreauthCredentials _ credentials => credentials.map CredentialPair.preimage
  | ownerDirPage accountID _ => [(ownerDir accountID).preimage]
  | mpTokenByID mptID _ => [(mptIssuance mptID).preimage]
  | _ => []

def hashed (o : Object) : List (List UInt8) :=
  o.preimage :: o.hashedBefore

theorem hashedBefore_record (o : Object)
    : Keylet.hashedBefore o.record.1 o.record.2 ⊆ o.hashedBefore := by
  cases o with
  | depositPreauthCredentials owner credentials =>
    intro x hx
    obtain ⟨c, hc, hx⟩ := mem_map.mp hx
    rw [← hx]
    exact mem_map_of_mem (mem_normalize.mp hc)
  | ownerDirPage accountID page =>
    by_cases hpage : page = 0
    . simp [record, fieldsOf, hpage, Keylet.hashedBefore]
    . simp [record, fieldsOf, hpage, Keylet.hashedBefore]
  | _ => simp [record, fieldsOf, Keylet.hashedBefore]

variable {o o' : Object}

theorem preimage_eq (hfree : Set.InjOn sum { x | x ∈ o.hashed ++ o'.hashed })
    (hbook : o.identity.1 = .bookDir ∨ o'.identity.1 = .bookDir →
      Set.InjOn (fun x => (sum x).toList.take 24) {o.preimage, o'.preimage})
    (hkey : o.keylet.key = o'.keylet.key)
    : o.preimage = o'.preimage := by
  by_cases hspace : o.identity.1 = .bookDir ∨ o'.identity.1 = .bookDir
  . apply hbook hspace
    . exact Set.mem_insert _ _
    . exact Set.mem_insert_of_mem _ rfl
    dsimp only
    rw [← keylet_take, ← keylet_take, hkey]
  rw [not_or] at hspace
  apply hfree
  . exact mem_append_left _ mem_cons_self
  . exact mem_append_right _ mem_cons_self
  rw [← keylet_key, ← keylet_key, hkey]
  . rw [bookQuality_eq, if_neg hspace.right]
  . rw [bookQuality_eq, if_neg hspace.left]

theorem identity_eq (hfree : Set.InjOn sum { x | x ∈ o.hashed ++ o'.hashed })
    (hpreimage : o.preimage = o'.preimage)
    : o.identity = o'.identity := by
  have hrecord : o.record = o'.record := by
    apply AnyRecord.preimage_injective _ hpreimage
    apply hfree.mono
    intro x hx
    rcases mem_append.mp hx with hx | hx
    . exact mem_append_left _ (mem_cons_of_mem _ (o.hashedBefore_record hx))
    . exact mem_append_right _ (mem_cons_of_mem _ (o'.hashedBefore_record hx))
  rw [← identity_record, ← identity_record, hrecord]

omit [Sha512Half] in
theorem parent_cases (hp : p ∈ o.parent)
    : (∃ accountID page, o = ownerDirPage accountID page ∧ p = ownerDir accountID)
      ∨ ∃ mptID holder, o = mpTokenByID mptID holder ∧ p = mptIssuance mptID := by
  cases o with
  | ownerDirPage accountID page =>
    cases hp
    exact .inl ⟨accountID, page, rfl, rfl⟩
  | mpTokenByID mptID holder =>
    cases hp
    exact .inr ⟨mptID, holder, rfl, rfl⟩
  | _ => cases hp

theorem identity_eq_of_parents {p p' : Object}
    (hfree : Set.InjOn sum { x | x ∈ o.hashed ++ o'.hashed })
    (hp : p.preimage ∈ o.hashedBefore) (hp' : p'.preimage ∈ o'.hashedBefore)
    (hbefore : p.hashedBefore = []) (hbefore' : p'.hashedBefore = [])
    (hkey : Sha512Half.sum p.preimage = Sha512Half.sum p'.preimage)
    : p.identity = p'.identity := by
  have hpreimage : p.preimage = p'.preimage := by
    apply hfree _ _ hkey
    . exact mem_append_left _ (mem_cons_of_mem _ hp)
    . exact mem_append_right _ (mem_cons_of_mem _ hp')
  apply identity_eq _ hpreimage
  intro x hx y hy _
  simp only [hashed, hbefore, hbefore', hpreimage, cons_append, nil_append,
    mem_cons, not_mem_nil, or_false, or_self, Set.mem_ofPred_eq] at hx hy
  rw [hx, hy]

theorem identity_ownerDirPage (accountID : AccountID) (hpage : page ≠ 0)
    : (ownerDirPage accountID page).identity
        = ⟨.dirNode, sum (ownerDir accountID).preimage, page⟩ := by
  rw [← keylet_key _ rfl]
  exact if_neg hpage

theorem parent_identity_eq (hfree : Set.InjOn Sha512Half.sum { x | x ∈ o.hashed ++ o'.hashed })
    (hidentity : o.identity = o'.identity) {p p' : Object} (hp : p ∈ o.parent)
    (hp' : p' ∈ o'.parent)
    : p.identity = p'.identity := by
  rcases parent_cases hp with ⟨accountID, page, rfl, rfl⟩ | ⟨mptID, holder, rfl, rfl⟩
  . rcases parent_cases hp' with ⟨accountID', page', rfl, rfl⟩ | ⟨mptID', holder', rfl, rfl⟩
    . by_cases hpage : page = 0
      . by_cases hpage' : page' = 0
        . rw [hpage, hpage'] at hidentity
          exact hidentity
        rw [hpage, identity_ownerDirPage _ hpage'] at hidentity
        cases hidentity
      by_cases hpage' : page' = 0
      . rw [hpage', identity_ownerDirPage _ hpage] at hidentity
        cases hidentity
      rw [identity_ownerDirPage _ hpage, identity_ownerDirPage _ hpage'] at hidentity
      apply identity_eq_of_parents hfree mem_cons_self mem_cons_self rfl rfl
      injection hidentity with _ hfields
      exact congrArg Prod.fst hfields
    simp only [identity, fieldsOf] at hidentity
    split at hidentity
    . cases hidentity
    . cases hidentity
  rcases parent_cases hp' with ⟨accountID', page', rfl, rfl⟩ | ⟨mptID', holder', rfl, rfl⟩
  . simp only [identity, fieldsOf] at hidentity
    split at hidentity
    . cases hidentity
    . cases hidentity
  apply identity_eq_of_parents hfree mem_cons_self mem_cons_self rfl rfl
  rw [← keylet_key _ rfl, ← keylet_key _ rfl]
  injection hidentity with _ hfields
  exact congrArg Prod.fst hfields

/--
Two objects have the same key only if they are the same object, as long as the strings hashed for
them do not clash, for a book directory not even in the first 192 bits.
-/
theorem sameIdentity_of_key_eq (hfree : Set.InjOn sum { x | x ∈ o.hashed ++ o'.hashed })
    (hbook : o.identity.1 = .bookDir ∨ o'.identity.1 = .bookDir →
      Set.InjOn (fun x => (sum x).toList.take 24) {o.preimage, o'.preimage})
    (hkey : o.keylet.key = o'.keylet.key)
    : SameIdentity o o' where
  identity := identity_eq hfree (preimage_eq hfree hbook hkey)
  quality := by
    rw [bookQuality_eq, bookQuality_eq, identity_eq hfree (preimage_eq hfree hbook hkey), hkey]
  parent p hp p' hp' :=
    parent_identity_eq hfree (identity_eq hfree (preimage_eq hfree hbook hkey)) hp hp'

end Object

end Keys

namespace Sample

-- A hash that keeps the first bytes of its argument
abbrev sha512Half : Sha512Half where
  sum data := Vector.ofFn fun i => data.getD i 0

attribute [local instance] sha512Half

def book : Book :=
  .bookBase (.issue (.replicate 20 0) (.replicate 20 0)) (.mpt (.replicate 24 7)) none

theorem book_sameIdentity
    : (Object.book book).keylet.key = (Object.quality book 0).keylet.key
      ∧ Object.SameIdentity (.book book) (.quality book 0) := by
  have hkey : (Object.book book).keylet.key = (Object.quality book 0).keylet.key := by
    decide +kernel
  refine ⟨hkey, Object.sameIdentity_of_key_eq ?_ ?_ hkey⟩
  . intro x hx y hy _
    simp only [Object.hashed, Object.hashedBefore, List.cons_append, List.nil_append,
      List.mem_cons, List.not_mem_nil, or_false, Set.mem_ofPred_eq] at hx hy
    rcases hx with rfl | rfl <;> rcases hy with rfl | rfl <;> rfl
  intro _ x hx y hy _
  rcases hx with rfl | rfl <;> rcases hy with rfl | rfl <;> rfl

end Sample

end Keylet
end State
