import GoXrpl.Replay.Impl.ReplayDelta
import GoXrpl.SHAMap.LeafKinds
import GoXrpl.Program.Basic

open List

namespace Replay

open SHAMap (Error Item orWrap)
open Disputes (computeTxID)
open Fallible (bind_eq_ok map_eq_ok)

section

open Radix

variable [Sha512Half]

def Holds (txMap : SHAMap) (txs : List DecodedTx) : Prop :=
  ∃ c, txMap.Typed c ∧ ∀ x, x ∈ (Tree.inner c).items
    ↔ ∃ dtx ∈ txs, x = (dtx.hash, .transactionWithMeta, dtx.leafBlob)

theorem holds_new (mapType : SHAMap.MapType) : Holds (SHAMap.new mapType) [] := by
  refine ⟨_, (SHAMap.Reached.new mapType).typed, ?_⟩
  simp

namespace Holds

theorem congr (h : Holds txMap txs) (hroot : txMap'.root = txMap.root)
    (htxs : ∀ dtx, dtx ∈ txs' ↔ dtx ∈ txs)
    : Holds txMap' txs' := by
  obtain ⟨c, htyped, hitems⟩ := h
  refine ⟨c, ⟨hroot.trans htyped.root, htyped.canonical, htyped.long⟩, ?_⟩
  simp only [htxs]
  exact hitems

theorem get_iff (h : Holds txMap txs) (key : Hash256) (item : Item)
    : txMap.get key = .ok (some item)
        ↔ item.key = key ∧ ∃ dtx ∈ txs, dtx.hash = key ∧ dtx.leafBlob = item.data := by
  obtain ⟨c, htyped, hitems⟩ := h
  rw [htyped.get_eq, Except.ok.injEq, Option.map_eq_some_iff]
  constructor
  . rintro ⟨a, hlookup, rfl⟩
    obtain ⟨dtx, hmem, heq⟩ :=
      (hitems _).mp ((Tree.lookup_eq_some_iff htyped.canonical.1).mp hlookup)
    cases heq
    exact ⟨rfl, dtx, hmem, rfl, rfl⟩
  rintro ⟨hkey, dtx, hmem, rfl, hdata⟩
  refine ⟨(.transactionWithMeta, dtx.leafBlob), ?_, ?_⟩
  . apply (Tree.lookup_eq_some_iff htyped.canonical.1).mpr
    exact (hitems _).mpr ⟨dtx, hmem, rfl⟩
  . rw [hdata, ← hkey]

theorem not_mem_of_has (h : Holds txMap txs) (hhas : txMap.has key = .ok false)
    : ∀ dtx ∈ txs, dtx.hash ≠ key := by
  intro dtx hmem hkey
  have hget := (h.get_iff key ⟨key, dtx.leafBlob⟩).mpr ⟨rfl, dtx, hmem, hkey, rfl⟩
  unfold SHAMap.get at hget
  unfold SHAMap.has at hhas
  rw [hget] at hhas
  cases hhas

theorem put (h : Holds txMap txs) (hnew : ∀ seen ∈ txs, seen.hash ≠ dtx.hash)
    (hput : txMap.putWithNodeType dtx.hash dtx.leafBlob .transactionWithMeta = (.ok (), txMap'))
    : Holds txMap' (txs ++ [dtx]) := by
  obtain ⟨c, htyped, hitems⟩ := h
  have hstate : txMap.state = .modifying := by
    unfold SHAMap.putWithNodeType at hput
    split at hput
    . cases hput
    . next hstate => exact Decidable.of_not_not hstate
  have hlen : 12 ≤ dtx.leafBlob.length := by
    rcases SHAMap.createLeafNode_cases .transactionWithMeta ⟨dtx.hash, dtx.leafBlob⟩ with
      ⟨e, hleaf⟩ | ⟨hlen, _⟩
    . obtain ⟨err, herr⟩ := SHAMap.putItemWithNodeTypeUnsafe_eq_error htyped hleaf
      unfold SHAMap.putWithNodeType at hput
      rw [if_neg (not_not_intro hstate), herr] at hput
      cases hput
    . exact hlen
  obtain ⟨c', hreached, _, hitems'⟩ := SHAMap.Reached.exec_put ⟨htyped, hstate⟩
    (.putWithNodeType dtx.hash dtx.leafBlob .transactionWithMeta) dtx.hash .transactionWithMeta hlen
    (.inr ⟨rfl, rfl⟩)
  unfold SHAMap.TypedOp.exec at hreached
  dsimp only at hreached
  rw [hput] at hreached
  refine ⟨c', hreached.typed, ?_⟩
  intro x
  rw [hitems', hitems]
  constructor
  . rintro (rfl | ⟨⟨seen, hmem, rfl⟩, _⟩)
    . exact ⟨dtx, by simp, rfl⟩
    . exact ⟨seen, by simp [hmem], rfl⟩
  rintro ⟨seen, hmem, rfl⟩
  rw [mem_append, mem_singleton] at hmem
  rcases hmem with hmem | rfl
  . exact .inr ⟨⟨seen, hmem, rfl⟩, hnew seen hmem⟩
  . exact .inl rfl

end Holds

end

section Except

variable {α β : Type}

theorem orWrap_eq_ok (h : orWrap msg x = .ok a)
    : x = .ok a := by
  cases x with
  | error err => cases h
  | ok a => exact h

theorem bind_orWrap_eq_ok (h : (orWrap msg x >>= f) = .ok b) : ∃ a, x = .ok a ∧ f a = .ok b := by
  obtain ⟨a, hx, hf⟩ := bind_eq_ok h
  exact ⟨a, orWrap_eq_ok hx, hf⟩

end Except

theorem root_snapshot (h : snapshot sm mutable = .ok sm') : sm'.root = sm.root := by
  unfold snapshot at h
  split at h
  . cases h
  cases h
  rfl

theorem root_setImmutable (h : SkipList.setImmutable sm = .ok sm') : sm'.root = sm.root := by
  unfold SkipList.setImmutable at h
  split at h
  . cases h
  cases h
  rfl

theorem checkParent_eq_ok (h : checkParent hdr (some parent) = .ok ())
    : hdr.parentHash = parent.header.hash
        ∧ hdr.ledgerIndex = parent.header.ledgerIndex + 1 := by
  unfold checkParent at h
  dsimp only at h
  split at h
  . cases h
  . next hhash =>
    split at h
    . cases h
    . next hindex =>
      exact ⟨Decidable.of_not_not hhash, Decidable.of_not_not hindex⟩

theorem header_newFromHeader [Amendments] (h : Ledger.newFromHeader hdr stateMap txMap = .ok l)
    : l.header = hdr := by
  obtain ⟨_, _, h⟩ := bind_eq_ok h
  obtain ⟨_, _, h⟩ := bind_eq_ok h
  obtain ⟨_, _, h⟩ := bind_eq_ok h
  obtain ⟨_, _, h⟩ := bind_eq_ok h
  cases h
  rfl

theorem checkChild_eq_ok (h : checkChild child hdr = .ok child')
    : child' = child ∧ child.txMap.hash = .ok hdr.txHash ∧ child.stateMap.hash = .ok hdr.accountHash
        ∧ child.header.hash = hdr.hash := by
  obtain ⟨gotTxRoot, htx, h⟩ := bind_orWrap_eq_ok h
  split at h
  . cases h
  . next htxRoot =>
    obtain ⟨gotStateRoot, hstate, h⟩ := bind_orWrap_eq_ok h
    split at h
    . cases h
    . next hstateRoot =>
      split at h
      . cases h
      . next hhash =>
        cases h
        rw [htx, hstate, Decidable.of_not_not htxRoot, Decidable.of_not_not hstateRoot]
        exact ⟨rfl, rfl, rfl, Decidable.of_not_not hhash⟩

variable [Sha512Half]

theorem checkHeader_eq_ok (h : checkHeader resp = .ok hdr)
    : toHash32 resp.ledgerHash = some hdr.hash
        ∧ hdr.hash = Sha512Half.sum (hashPrefixLedgerMaster ++ resp.ledgerHeader)
        ∧ ∃ body, deserializeHeader resp.ledgerHeader = .ok body
            ∧ hdr = { body with hash := hdr.hash } := by
  unfold checkHeader at h
  split at h
  . cases h
  split at h
  . cases h
  split at h
  . cases h
  . next advertised hadvertised =>
    dsimp only at h
    split at h
    . cases h
    . next hhash =>
      obtain ⟨body, hbody, rfl⟩ := map_eq_ok h
      rw [hadvertised]
      exact ⟨congrArg some (Decidable.of_not_not hhash).symm, rfl, body, orWrap_eq_ok hbody, rfl⟩

structure Decodes (dtx : DecodedTx) (blob : List UInt8) : Prop where
  leafBlob : dtx.leafBlob = blob
  split : splitTxWithMetaBlob blob = .ok (dtx.txBytes, dtx.metaBytes)
  hash : dtx.hash = computeTxID dtx.txBytes

section Decode

variable {Tx Metadata EngineState : Type} [Engine Tx Metadata EngineState]

theorem decodeTx_eq_ok (h : decodeTx decoded blob = .ok dtx) : Decodes dtx blob := by
  unfold decodeTx at h
  split at h
  . cases h
  . next txBytes metaBytes hsplit =>
    dsimp only at h
    split at h
    . cases h
    split at h
    . cases h
    cases h
    exact ⟨rfl, orWrap_eq_ok hsplit, rfl⟩

theorem decodeTxs_eq_ok (h : decodeTxs blobs txMap decoded = .ok (txMap', decoded'))
    : ∃ txs, decoded' = decoded ++ txs ∧ List.Forall₂ Decodes txs blobs := by
  induction blobs generalizing txMap decoded with
  | nil =>
    cases h
    exact ⟨[], (append_nil _).symm, .nil⟩
  | cons blob blobs ih =>
    unfold decodeTxs at h
    split at h
    . cases h
    . next dtx hdecode =>
      split at h
      . cases h
      obtain ⟨txs, hdecoded, htxs⟩ := ih h
      refine ⟨dtx :: txs, ?_, .cons (decodeTx_eq_ok hdecode) htxs⟩
      rw [hdecoded, append_assoc]
      rfl

end Decode

theorem exists_decoded_iff
    (h : List.Forall₂ Decodes decoded blobs) (key : Hash256) (data : List UInt8)
    : (∃ dtx ∈ decoded, dtx.hash = key ∧ dtx.leafBlob = data)
        ↔ data ∈ blobs ∧ ∃ txBytes metaBytes,
            splitTxWithMetaBlob data = .ok (txBytes, metaBytes) ∧ computeTxID txBytes = key := by
  induction h with
  | nil => simp
  | @cons dtx blob decoded blobs hdtx _ ih =>
    rw [exists_mem_cons_iff, ih, mem_cons, or_and_right]
    apply or_congr_left
    constructor
    . rintro ⟨rfl, rfl⟩
      exact ⟨hdtx.leafBlob, dtx.txBytes, dtx.metaBytes, hdtx.leafBlob ▸ hdtx.split, hdtx.hash.symm⟩
    rintro ⟨rfl, txBytes, metaBytes, hsplit, rfl⟩
    rw [hdtx.split] at hsplit
    cases hsplit
    exact ⟨hdtx.hash, hdtx.leafBlob⟩

structure Verified (parent : Option Ledger) (resp : ReplayDeltaResponse) (hdr : LedgerHeader)
    (txs : List DecodedTx) : Prop where
  advertised : toHash32 resp.ledgerHash = some hdr.hash
  hash : hdr.hash = Sha512Half.sum (hashPrefixLedgerMaster ++ resp.ledgerHeader)
  header : ∃ body, deserializeHeader resp.ledgerHeader = .ok body
    ∧ hdr = { body with hash := hdr.hash }
  linked : checkParent hdr parent = .ok ()
  decoded : ∃ decoded, txs.Perm decoded ∧ List.Forall₂ Decodes decoded resp.transactions

theorem Verified.exists_iff (h : Verified parent resp hdr txs) (key : Hash256) (data : List UInt8)
    : (∃ dtx ∈ txs, dtx.hash = key ∧ dtx.leafBlob = data)
        ↔ data ∈ resp.transactions ∧ ∃ txBytes metaBytes,
            splitTxWithMetaBlob data = .ok (txBytes, metaBytes) ∧ computeTxID txBytes = key := by
  obtain ⟨decoded, hperm, hdecoded⟩ := h.decoded
  simp only [hperm.mem_iff]
  exact exists_decoded_iff hdecoded key data

theorem verifyAndBuild_eq_ok {Tx Metadata EngineState : Type} [Engine Tx Metadata EngineState]
    [Amendments] {r r' : ReplayDelta} (h : r.verifyAndBuild resp = .ok r')
    : ∃ result txs, r' = { r with result := some result, txs }
        ∧ Verified r.parent resp result.header txs := by
  obtain ⟨hdr, hheader, h⟩ := bind_eq_ok h
  obtain ⟨_, hparent, h⟩ := bind_eq_ok h
  obtain ⟨⟨txMap, decoded⟩, hdecode, h⟩ := bind_eq_ok h
  obtain ⟨_, _, h⟩ := bind_eq_ok h
  obtain ⟨rootHash, _, h⟩ := bind_eq_ok h
  split at h
  . cases h
  obtain ⟨stateMap, _, h⟩ := bind_eq_ok h
  obtain ⟨result, hresult, h⟩ := bind_orWrap_eq_ok h
  cases h
  obtain ⟨txs, hdecoded, htxs⟩ := decodeTxs_eq_ok hdecode
  obtain ⟨hadvertised, hhash, hbody⟩ := checkHeader_eq_ok hheader
  refine ⟨result, _, rfl, ?_⟩
  rw [header_newFromHeader hresult]
  refine ⟨hadvertised, hhash, hbody, hparent, txs, ?_, htxs⟩
  rw [hdecoded, nil_append]
  exact mergeSort_perm _ _

section Ledger

theorem addTransactionWithMeta_eq_ok {l l' : Ledger}
    (hholds : Holds l.txMap prior) (h : l.addTransactionWithMeta dtx.hash dtx.leafBlob = .ok l')
    : l'.header = l.header ∧ Holds l'.txMap (prior ++ [dtx]) := by
  unfold Ledger.addTransactionWithMeta at h
  split at h
  . cases h
  split at h
  . cases h
  . cases h
  . next hhas =>
    split at h
    . cases h
    . next txMap hput =>
      cases h
      exact ⟨rfl, hholds.put (hholds.not_mem_of_has hhas) hput⟩

variable [SkipList.LedgerHashesCodec] [Amendments]

theorem close_eq_ok {l l' : Ledger} (h : l.close closeTime closeFlags = .ok l')
    : l'.txMap.root = l.txMap.root ∧ l'.header.parentHash = l.header.parentHash
        ∧ l'.header.ledgerIndex = l.header.ledgerIndex
        ∧ l'.header.hash = Ledger.calculateHash l'.header := by
  unfold Ledger.close at h
  split at h
  . cases h
  split at h
  . cases h
  split at h
  . cases h
  obtain ⟨_, _, h⟩ := bind_eq_ok h
  obtain ⟨txMap, hfork, h⟩ := bind_orWrap_eq_ok h
  obtain ⟨_, _, h⟩ := bind_eq_ok h
  obtain ⟨_, _, h⟩ := bind_eq_ok h
  obtain ⟨_, _, h⟩ := bind_eq_ok h
  obtain ⟨closed, hclosed, h⟩ := bind_orWrap_eq_ok h
  obtain ⟨_, _, h⟩ := bind_eq_ok h
  obtain ⟨_, _, h⟩ := bind_eq_ok h
  cases h
  exact ⟨(root_setImmutable hclosed).trans (root_snapshot hfork), rfl, rfl, rfl⟩

end Ledger

section Replay

variable {Tx Metadata EngineState : Type} [Engine Tx Metadata EngineState]
  {s s' : Replaying Tx Metadata EngineState} {prior : List DecodedTx} {dtx : DecodedTx}

theorem replayTx_eq_ok (hholds : Holds s.child.txMap prior) (h : replayTx s dtx = .ok s')
    : s'.child.header = s.child.header ∧ Holds s'.child.txMap (prior ++ [dtx]) := by
  unfold replayTx at h
  split at h
  . cases h
  . next txn _ =>
    split at h
    . unfold replayBatchInner at h
      split at h
      . cases h
      . cases h
      split at h
      . cases h
      split at h
      . cases h
      split at h
      . cases h
      obtain ⟨child, hchild, rfl⟩ := map_eq_ok h
      exact addTransactionWithMeta_eq_ok hholds (orWrap_eq_ok hchild)
    unfold replayOuter at h
    split at h
    . cases h
    split at h
    . cases h
    . next result engine written _ =>
      split at h
      . cases h
      split at h
      . cases h
      split at h
      . cases h
      obtain ⟨child, hchild, rfl⟩ := map_eq_ok h
      exact addTransactionWithMeta_eq_ok (l := s.child.wrote written) hholds
        (orWrap_eq_ok hchild)

theorem replayTxs_eq_ok (hholds : Holds s.child.txMap prior) (h : replayTxs s txs = .ok s')
    : s'.child.header = s.child.header ∧ Holds s'.child.txMap (prior ++ txs) := by
  induction txs generalizing s prior with
  | nil =>
    cases h
    rw [append_nil]
    exact ⟨rfl, hholds⟩
  | cons dtx txs ih =>
    unfold replayTxs at h
    split at h
    . cases h
    . next hdtx =>
      obtain ⟨hheader, hholds⟩ := replayTx_eq_ok hholds hdtx
      obtain ⟨hheader', hholds⟩ := ih hholds h
      rw [append_assoc] at hholds
      exact ⟨hheader'.trans hheader, hholds⟩

omit [Sha512Half] in
theorem beforeTxs_eq_ok (h : beforeTxs child = .ok child')
    : child'.header = child.header ∧ child'.txMap = child.txMap := by
  unfold beforeTxs at h
  split at h
  . obtain ⟨stateMap, _, rfl⟩ := map_eq_ok h
    exact ⟨rfl, rfl⟩
  cases h
  exact ⟨rfl, rfl⟩

variable [Amendments]

theorem openChild_eq_ok (h : openChild parent hdr = .ok child)
    : child.header.parentHash = parent.header.hash
        ∧ child.header.ledgerIndex = hdr.ledgerIndex ∧ Holds child.txMap [] := by
  obtain ⟨stateMap, _, h⟩ := bind_eq_ok h
  dsimp only at h
  split at h
  . cases h
  have h := orWrap_eq_ok h
  obtain ⟨_, _, h⟩ := bind_eq_ok h
  obtain ⟨_, _, h⟩ := bind_eq_ok h
  obtain ⟨txMap, htxMap, h⟩ := bind_orWrap_eq_ok h
  obtain ⟨_, _, h⟩ := bind_eq_ok h
  cases h
  exact ⟨rfl, rfl, (holds_new .transaction).congr (root_snapshot htxMap) (fun _ => Iff.rfl)⟩

variable [SkipList.LedgerHashesCodec]

structure Replayed (parent : Ledger) (hdr : LedgerHeader) (txs : List DecodedTx) (derived : Ledger)
    : Prop where
  hash : derived.header.hash = hdr.hash
  own : derived.header.hash = Ledger.calculateHash derived.header
  parentHash : derived.header.parentHash = parent.header.hash
  ledgerIndex : derived.header.ledgerIndex = hdr.ledgerIndex
  txRoot : derived.txMap.hash = .ok hdr.txHash
  stateRoot : derived.stateMap.hash = .ok hdr.accountHash
  holds : Holds derived.txMap txs

theorem replay_eq_ok {parent result derived : Ledger} (h : replay parent result txs = .ok derived)
    : Replayed parent result.header txs derived := by
  obtain ⟨child, hopen, h⟩ := bind_eq_ok h
  obtain ⟨before, hbefore, h⟩ := bind_eq_ok h
  obtain ⟨s, htxs, h⟩ := bind_eq_ok h
  split at h
  . cases h
  obtain ⟨closed, hclose, h⟩ := bind_orWrap_eq_ok h
  obtain ⟨hparent, hindex, hholds⟩ := openChild_eq_ok hopen
  obtain ⟨hheader, htxMap⟩ := beforeTxs_eq_ok hbefore
  have hempty : Holds before.txMap [] := htxMap ▸ hholds
  obtain ⟨hheader', hholds⟩ := replayTxs_eq_ok hempty htxs
  obtain ⟨hroot, hparent', hindex', hown⟩ := close_eq_ok hclose
  obtain ⟨rfl, htxRoot, hstateRoot, hhash⟩ := checkChild_eq_ok h
  rw [hheader', hheader] at hparent' hindex'
  exact {
    hash := hhash
    own := hown
    parentHash := hparent'.trans hparent
    ledgerIndex := hindex'.trans hindex
    txRoot := htxRoot
    stateRoot := hstateRoot
    holds := hholds.congr hroot (fun _ => Iff.rfl) }

end Replay

end Replay
