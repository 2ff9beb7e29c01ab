import GoXrpl.Replay.Lemmas.Replay
import GoXrpl.SHAMap.Lemmas.Digest

open Hash256

namespace Replay

open SHAMap (Error Item)
open Disputes (computeTxID)

section

theorem splits_of_decoded {decoded : List DecodedTx} {blobs : List (List UInt8)}
    (h : List.Forall₂ (fun dtx blob => splitTxWithMetaBlob blob = .ok (dtx.txBytes, dtx.metaBytes))
      decoded blobs) (hblob : blob ∈ blobs)
    : ∃ txBytes metaBytes, splitTxWithMetaBlob blob = .ok (txBytes, metaBytes) := by
  induction h with
  | nil => cases hblob
  | cons hsplit _ ih =>
    rw [List.mem_cons] at hblob
    rcases hblob with rfl | hblob
    . exact ⟨_, _, hsplit⟩
    . exact ih hblob

variable [Sha512Half]

structure Replays (parent : Ledger) (resp : ReplayDeltaResponse) (hash : Hash256) (derived : Ledger)
    : Prop where
  hash : derived.header.hash = hash
  parentHash : derived.header.parentHash = parent.header.hash
  ledgerIndex : derived.header.ledgerIndex = parent.header.ledgerIndex + 1
  roots : ∃ hdr, deserializeHeader resp.ledgerHeader = .ok hdr
    ∧ derived.txMap.hash = .ok hdr.txHash ∧ derived.stateMap.hash = .ok hdr.accountHash
  held : ∀ blob ∈ resp.transactions, ∃ txBytes metaBytes,
    splitTxWithMetaBlob blob = .ok (txBytes, metaBytes)
      ∧ derived.txMap.get (computeTxID txBytes) = .ok (some ⟨computeTxID txBytes, blob⟩)
  sent : ∀ key item, derived.txMap.get key = .ok (some item) →
    item.data ∈ resp.transactions ∧ ∃ txBytes metaBytes,
      splitTxWithMetaBlob item.data = .ok (txBytes, metaBytes) ∧ computeTxID txBytes = key
  body : SHAMap.CollisionFree [hashPrefixLedgerMaster ++ derived.header.appendRawBody,
      hashPrefixLedgerMaster ++ resp.ledgerHeader] →
    derived.header.appendRawBody = resp.ledgerHeader

theorem Verified.replays {parent derived : Ledger}
    {hdr : LedgerHeader} (h : Verified (some parent) resp hdr txs)
    (hreplayed : Replayed parent hdr txs derived)
    : Replays parent resp hdr.hash derived := by
  obtain ⟨body, hbody, heq⟩ := h.header
  refine ⟨hreplayed.hash, hreplayed.parentHash, ?_, ⟨body, hbody, ?_, ?_⟩, ?_, ?_, ?_⟩
  . rw [hreplayed.ledgerIndex]
    exact (checkParent_eq_ok h.linked).2
  . rw [hreplayed.txRoot, heq]
  . rw [hreplayed.stateRoot, heq]
  . intro blob hblob
    obtain ⟨decoded, _, hdecoded⟩ := h.decoded
    obtain ⟨txBytes, metaBytes, hsplit⟩ :=
      splits_of_decoded (hdecoded.imp fun _ _ hdtx => hdtx.split) hblob
    refine ⟨txBytes, metaBytes, hsplit, ?_⟩
    apply (hreplayed.holds.get_iff _ _).mpr
    exact ⟨rfl, (h.exists_iff _ _).mpr ⟨hblob, txBytes, metaBytes, hsplit, rfl⟩⟩
  . intro key item hget
    exact (h.exists_iff _ _).mp ((hreplayed.holds.get_iff _ _).mp hget).2
  intro hfree
  have hsum : Sha512Half.sum (hashPrefixLedgerMaster ++ derived.header.appendRawBody)
      = Sha512Half.sum (hashPrefixLedgerMaster ++ resp.ledgerHeader) :=
    hreplayed.own.symm.trans (hreplayed.hash.trans h.hash)
  have hsome := hfree (some _) (by simp) (some _) (by simp) hsum
  exact List.append_cancel_left (Option.some_inj.mp hsome)

end

inductive Call where
  | acquire (admitted : Except Error Unit) (hash : Hash256) (peerID : Nat) (parent : Option Ledger)
  | response (peerID : Nat) (enforcePeer : Bool) (reserved : Except Error Unit)
      (resp : ReplayDeltaResponse)
  | apply (hash : Hash256)
  | noteSubTaskRetry (hash : Hash256) (newPeerID : Nat)
  | complete (hash : Hash256)

def Received (calls : List Call) (resp : ReplayDeltaResponse) : Prop :=
  ∃ peerID enforcePeer reserved, Call.response peerID enforcePeer reserved resp ∈ calls

def Acquired (calls : List Call) (hash : Hash256) (parent : Option Ledger) : Prop :=
  ∃ admitted peerID, Call.acquire admitted hash peerID parent ∈ calls

section Registry

variable [Sha512Half] {Tx Metadata EngineState : Type} [Engine Tx Metadata EngineState]

section

variable [Amendments] [SkipList.LedgerHashesCodec]

namespace Replayer

def step (r : Replayer) : Call → Replayer
  | .acquire admitted hash peerID parent => (r.acquire admitted hash peerID parent).2
  | .response peerID enforcePeer reserved resp =>
    (r.handleResponseFrom peerID enforcePeer reserved resp).2
  | .apply hash => (r.apply hash).2
  | .noteSubTaskRetry hash newPeerID => r.noteSubTaskRetry hash newPeerID
  | .complete hash => r.complete hash

def run (r : Replayer) (calls : List Call) : Replayer := calls.foldl step r

end Replayer

theorem derive_eq_ok {rd : ReplayDelta} {result derived : Ledger}
    (hresult : rd.result = some result) (h : rd.derive = .ok derived)
    : ∃ parent, rd.parent = some parent ∧ replay parent result rd.txs = .ok derived := by
  unfold ReplayDelta.derive at h
  split at h
  . cases h
  . cases h
  . next parent result' hparent hresult' =>
    rw [hresult'] at hresult
    cases hresult
    exact ⟨parent, hparent, h⟩

end

structure ReplayDelta.Sound (calls : List Call) (hash : Hash256) (rd : ReplayDelta) : Prop where
  created : rd.hash = hash
  acquired : Acquired calls hash rd.parent
  ready : rd.state = .replayReady → ∃ result resp, rd.result = some result
    ∧ Received calls resp ∧ result.header.hash = hash ∧ Verified rd.parent resp result.header rd.txs
  done : rd.state = .complete → ∃ derived parent resp, rd.derived = some derived
    ∧ rd.parent = some parent ∧ Received calls resp ∧ Replays parent resp hash derived

def Replayer.Sound (calls : List Call) (r : Replayer) : Prop :=
  ∀ hash rd, r.items.lookup hash = some rd → rd.Sound calls hash

namespace ReplayDelta.Sound

variable {hash : Hash256} {rd : ReplayDelta}

theorem mono (h : rd.Sound calls hash) (hsub : calls ⊆ calls') : rd.Sound calls' hash := by
  have hreceived : ∀ {resp}, Received calls resp → Received calls' resp := by
    rintro resp ⟨peerID, enforcePeer, reserved, hmem⟩
    exact ⟨peerID, enforcePeer, reserved, hsub hmem⟩
  obtain ⟨admitted, peerID, hmem⟩ := h.acquired
  refine ⟨h.created, ⟨admitted, peerID, hsub hmem⟩, ?_, ?_⟩
  . intro hstate
    obtain ⟨result, resp, hresult, hresp, hverified⟩ := h.ready hstate
    exact ⟨result, resp, hresult, hreceived hresp, hverified⟩
  intro hstate
  obtain ⟨derived, parent, resp, hderived, hparent, hresp, hreplays⟩ := h.done hstate
  exact ⟨derived, parent, resp, hderived, hparent, hreceived hresp, hreplays⟩

variable [Amendments]

theorem gotResponse (h : rd.Sound calls hash) (hroute : toHash32 resp.ledgerHash = some hash)
    (hreceived : Received calls resp)
    : (rd.gotResponse reserved resp).2.Sound calls hash := by
  unfold ReplayDelta.gotResponse
  split
  . exact h
  split
  . exact h
  split
  . exact ⟨h.created, h.acquired, nofun, nofun⟩
  . next r hverify =>
    obtain ⟨result, txs, rfl, hverified⟩ := verifyAndBuild_eq_ok hverify
    refine ⟨h.created, h.acquired, ?_, nofun⟩
    intro _
    refine ⟨result, resp, rfl, hreceived, ?_, hverified⟩
    exact Option.some_inj.mp (hverified.advertised.symm.trans hroute)

variable [SkipList.LedgerHashesCodec]

theorem apply (h : rd.Sound calls hash)
    : rd.apply.2.Sound calls hash
        ∧ ∀ derived, rd.apply.1 = .ok derived → ∃ parent resp, rd.parent = some parent
            ∧ Received calls resp ∧ Replays parent resp hash derived := by
  unfold ReplayDelta.apply
  cases hstate : rd.state with
  | wantBase =>
    refine ⟨h, ?_⟩
    intro derived hok
    cases hok
  | failed =>
    refine ⟨h, ?_⟩
    intro derived hok
    cases hok
  | complete =>
    obtain ⟨derived, parent, resp, hderived, hknown⟩ := h.done hstate
    refine ⟨h, ?_⟩
    intro derived' hok
    rw [hderived] at hok
    cases hok
    exact ⟨parent, resp, hknown⟩
  | replayReady =>
    cases hderive : rd.derive with
    | error err =>
      refine ⟨⟨h.created, h.acquired, ?_, ?_⟩, ?_⟩
      . intro hready
        cases hready
      . intro hcomplete
        cases hcomplete
      intro derived hok
      cases hok
    | ok derived =>
      obtain ⟨result, resp, hresult, hreceived, rfl, hverified⟩ := h.ready hstate
      obtain ⟨parent, hparent, hreplay⟩ := derive_eq_ok hresult hderive
      rw [hparent] at hverified
      have hreplays := hverified.replays (replay_eq_ok hreplay)
      refine ⟨⟨h.created, h.acquired, ?_, ?_⟩, ?_⟩
      . intro hready
        cases hready
      . intro _
        exact ⟨derived, parent, resp, rfl, hparent, hreceived, hreplays⟩
      intro derived' hok
      cases hok
      exact ⟨parent, resp, hparent, hreceived, hreplays⟩

end ReplayDelta.Sound

namespace Replayer.Sound

variable {r : Replayer}

theorem insert (h : r.Sound calls) {hash : Hash256} {rd : ReplayDelta} (hrd : rd.Sound calls hash)
    : Sound calls { r with items := r.items.insert hash rd } := by
  intro hash' rd' hlookup
  rcases Assoc.lookup_insert_cases hlookup with ⟨rfl, rfl⟩ | hlookup
  . exact hrd
  . exact h hash' rd' hlookup

theorem mono (h : r.Sound calls) (hsub : calls ⊆ calls') : r.Sound calls' := by
  intro hash rd hlookup
  exact (h hash rd hlookup).mono hsub

theorem acquire (h : r.Sound calls) {admitted : Except Error Unit} {hash : Hash256}
    (hcall : .acquire admitted hash peerID parent ∈ calls)
    : (r.acquire admitted hash peerID parent).2.Sound calls := by
  unfold Replayer.acquire
  split
  . exact h
  split
  . exact h
  split
  . exact h
  split
  . exact h
  apply h.insert
  refine ⟨rfl, ⟨_, _, hcall⟩, ?_, ?_⟩
  . intro hready
    cases hready
  intro hcomplete
  cases hcomplete

theorem noteSubTaskRetry (h : r.Sound calls) (hash : Hash256) (newPeerID : Nat)
    : (r.noteSubTaskRetry hash newPeerID).Sound calls := by
  unfold Replayer.noteSubTaskRetry
  split
  . exact h
  . next rd hlookup =>
    apply h.insert
    have hrd := h hash rd hlookup
    exact ⟨hrd.created, hrd.acquired, hrd.ready, hrd.done⟩

theorem complete (h : r.Sound calls) (hash : Hash256) : (r.complete hash).Sound calls := by
  intro hash' rd hlookup
  unfold Replayer.complete at hlookup
  by_cases heq : hash' = hash
  . rw [heq, AList.lookup_erase] at hlookup
    cases hlookup
  rw [AList.lookup_erase_ne heq] at hlookup
  exact h hash' rd hlookup

theorem new (maxInFlight maxPerPeer : Nat) : (Replayer.new maxInFlight maxPerPeer).Sound [] := by
  intro hash rd hlookup
  cases hlookup

variable [Amendments]

theorem handleResponseFrom (h : r.Sound calls)
    (hcall : .response peerID enforcePeer reserved resp ∈ calls)
    : (r.handleResponseFrom peerID enforcePeer reserved resp).2.Sound calls := by
  unfold Replayer.handleResponseFrom
  split
  . exact h
  . next hash hroute =>
    split
    . exact h
    . next rd hlookup =>
      split
      . exact h
      apply h.insert
      -- The registry has found the acquisition by the advertised hash.
      apply (h hash rd hlookup).gotResponse hroute
      exact ⟨_, _, _, hcall⟩

variable [SkipList.LedgerHashesCodec]

theorem apply (h : r.Sound calls) (hash : Hash256) : (r.apply hash).2.Sound calls := by
  unfold Replayer.apply
  split
  . exact h
  . next rd hlookup =>
    apply h.insert
    exact (h hash rd hlookup).apply.1

theorem step (h : r.Sound calls) (call : Call) : (r.step call).Sound (calls ++ [call]) := by
  have hmem : call ∈ calls ++ [call] := by simp
  have h : r.Sound (calls ++ [call]) := h.mono (List.subset_append_left _ _)
  cases call with
  | acquire admitted hash peerID parent => exact h.acquire hmem
  | response peerID enforcePeer reserved resp => exact h.handleResponseFrom hmem
  | apply hash => exact h.apply hash
  | noteSubTaskRetry hash newPeerID => exact h.noteSubTaskRetry hash newPeerID
  | complete hash => exact h.complete hash

theorem run (h : r.Sound calls) (calls' : List Call) : (r.run calls').Sound (calls ++ calls') := by
  induction calls' generalizing r calls with
  | nil =>
    rw [List.append_nil]
    exact h
  | cons call calls' ih =>
    have hrun := ih (h.step call)
    rw [List.append_assoc] at hrun
    exact hrun

end Replayer.Sound

variable [Amendments] [SkipList.LedgerHashesCodec]

/--
An acquisition that is applied derives the ledger that was asked for, over the parent it was asked
for with, from a response that has been received for it.
-/
theorem Replayer.apply_derives (maxInFlight maxPerPeer : Nat) (calls : List Call) (hash : Hash256)
    (derived : Ledger)
    (h : (((Replayer.new maxInFlight maxPerPeer).run calls).apply hash).1 = .ok derived)
    : ∃ rd parent resp, ((Replayer.new maxInFlight maxPerPeer).run calls).items.lookup hash = some rd
        ∧ rd.hash = hash ∧ rd.parent = some parent ∧ Acquired calls hash (some parent)
        ∧ Received calls resp ∧ Replays parent resp hash derived := by
  have hsound := (Sound.new maxInFlight maxPerPeer).run calls
  unfold Replayer.apply at h
  split at h
  . cases h
  . next rd hlookup =>
    have hrd := hsound hash rd hlookup
    obtain ⟨parent, resp, hparent, hreceived, hreplays⟩ := hrd.apply.2 derived h
    exact ⟨rd, parent, resp, hlookup, hrd.created, hparent, hparent ▸ hrd.acquired, hreceived, hreplays⟩

end Registry

namespace Sample

@[reducible]
def sha512Half : Sha512Half where
  sum bytes :=
    (Vector.replicate 32 1).set 0 (bytes.foldl (fun h b => h * 31 + b) 7) size_pos

@[reducible]
def amendments : Amendments where
  loadAmendments _ := .ok ()

@[reducible]
def codec : SkipList.LedgerHashesCodec where
  decodeLedgerHashes _ := none
  encodeEntry _ _ := none

def metadata : List UInt8 := [9, 9, 9, 9, 9, 9]

def result : ApplyResult (List UInt8) (List UInt8) where
  isApplied := true
  metadata := some metadata
  appliedInnerTransactions := []

def unwritten (l : Ledger) : Written where
  stateMap := l.stateMap
  dropsDestroyed := 0

-- Every transaction is applied, writes nothing and has the same metadata.
@[reducible]
def engine : Engine (List UInt8) (List UInt8) Unit where
  newEngine _ := ()
  parseFromBinary := some
  isInnerBatch _ := false
  isPseudoTransaction _ := false
  computeTransactionHash _ := none
  applyPseudo _ l _ := some (result, (), unwritten l)
  apply _ l _ := some (result, (), unwritten l)
  applyBatchInnerTransactions _ l _ result := some (result, (), unwritten l)
  serializeMetadata metadata := metadata
  transactionIndex _ := 0
  transactionIndexFromMetadata _ := some 0
  updateNegativeUNL stateMap _ := .ok stateMap

attribute [local instance] sha512Half amendments codec engine

def txBytes : List UInt8 := [1, 2, 3, 4, 5, 6]

def blob : List UInt8 := 6 :: txBytes ++ 6 :: metadata

def parentHeader : LedgerHeader where
  ledgerIndex := 0
  parentCloseTime := 0
  hash := zero
  txHash := zero
  accountHash := zero
  parentHash := zero
  drops := 100
  validated := true
  accepted := true
  closeFlags := 0
  closeTimeResolution := 10
  closeTime := fromRippleTime 10

def parent : Ledger where
  stateMap := SHAMap.new .state
  txMap := SHAMap.new .transaction
  header := parentHeader
  state := .validated
  writable := false
  dropsDestroyed := 0

def header : LedgerHeader :=
  { parentHeader with
    ledgerIndex := 1
    parentCloseTime := fromRippleTime 10
    closeTime := fromRippleTime 20
    txHash := ((SHAMap.new .transaction).putWithNodeType (computeTxID txBytes) blob
      .transactionWithMeta).2.root.hash }

def resp : ReplayDeltaResponse where
  ledgerHash := (Ledger.calculateHash header).toList
  ledgerHeader := header.appendRawBody
  transactions := [blob]
  hasError := false

theorem exists_ok {α : Type} {x : Except Error α} {p : α → Bool} (h : x.toOption.any p = true)
    : ∃ a, x = .ok a ∧ p a = true := by
  cases x with
  | error err => cases h
  | ok a => exact ⟨a, rfl, h⟩

def answered : Except Error Unit × ReplayDelta :=
  (newReplayDelta zero 1 (some parent)).gotResponse (.ok ()) resp

theorem other_hash_derived
    : answered.1 = .ok ()
        ∧ ∃ derived, answered.2.apply.1 = .ok derived ∧ derived.header.hash ≠ zero := by
  obtain ⟨⟨⟩, haccepted, _⟩ : ∃ a, answered.1 = .ok a ∧ true = true :=
    exists_ok (by decide +kernel)
  obtain ⟨derived, hderived, hother⟩ : ∃ derived, answered.2.apply.1 = .ok derived
      ∧ decide (derived.header.hash ≠ zero) = true :=
    exists_ok (by decide +kernel)
  exact ⟨haccepted, derived, hderived, of_decide_eq_true hother⟩

def calls : List Call :=
  [.acquire (.ok ()) (Ledger.calculateHash header) 1 (some parent), .response 1 true (.ok ()) resp]

theorem header_hash_derived
    : ∃ derived rd parent resp,
        (((Replayer.new 1 1).run calls).apply (Ledger.calculateHash header)).1 = .ok derived
          ∧ ((Replayer.new 1 1).run calls).items.lookup (Ledger.calculateHash header) = some rd
          ∧ rd.hash = Ledger.calculateHash header ∧ rd.parent = some parent
          ∧ Acquired calls (Ledger.calculateHash header) (some parent)
          ∧ Received calls resp ∧ Replays parent resp (Ledger.calculateHash header) derived := by
  obtain ⟨derived, hderived, _⟩ : ∃ derived,
      (((Replayer.new 1 1).run calls).apply (Ledger.calculateHash header)).1 = .ok derived
        ∧ true = true :=
    exists_ok (by decide +kernel)
  obtain ⟨rd, parent, resp, hknown⟩ := Replayer.apply_derives 1 1 calls _ derived hderived
  exact ⟨derived, rd, parent, resp, hderived, hknown⟩

end Sample

end Replay
