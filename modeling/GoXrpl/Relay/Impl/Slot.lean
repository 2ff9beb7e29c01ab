import Mathlib.Algebra.Group.Int.Defs
import Mathlib.Data.Finset.Basic
import GoXrpl.Assoc.Basic

/-!
This module contains the slot of a validator in the reduce-relay protocol: which peers relay the
messages of the validator, and which are told not to.
-/

namespace Relay

abbrev Time := Int

abbrev Duration := Int

def second : Duration := 1000000000

def minUnsquelchExpire : Duration := 300 * second

def maxUnsquelchExpireDefault : Duration := 600 * second

def squelchPerPeer : Duration := 10 * second

def maxUnsquelchExpirePeers : Duration := 3600 * second

def idled : Duration := 8 * second

def minMessageThreshold : Nat := 19

def maxMessageThreshold : Nat := 20

def defaultMaxSelectedPeers : Int := 5

inductive RelayPeerState where
  | counting
  | selected
  | squelched
  deriving DecidableEq

inductive RelaySlotState where
  | counting
  | selected
  deriving DecidableEq

structure RelayPeerInfo where
  state : RelayPeerState
  count : Nat
  expire : Time
  lastMessage : Time
  deriving DecidableEq

structure SquelchCall (PeerID : Type) where
  peerID : PeerID
  squelch : Bool
  duration : Duration
  deriving DecidableEq

structure ValidatorSlot (PeerID : Type) where
  peers : AList fun _ : PeerID => RelayPeerInfo
  considered : Finset PeerID
  reachedThreshold : Int
  lastSelected : Time
  state : RelaySlotState
  maxSelectedPeers : Int

structure Choices (PeerID : Type) where
  now : Time
  sinceSelected : Time
  sinceMessage : PeerID → Time
  shuffle : List PeerID → List PeerID
  intN : PeerID → Nat

variable {PeerID : Type} [DecidableEq PeerID]

namespace ValidatorSlot

def new (maxSelected : Int) (now : Time) : ValidatorSlot PeerID where
  peers := ∅
  considered := ∅
  reachedThreshold := 0
  lastSelected := now
  state := .counting
  maxSelectedPeers := if maxSelected ≤ 0 then defaultMaxSelectedPeers else maxSelected

def setPeer (s : ValidatorSlot PeerID) (peerID : PeerID) (peer : RelayPeerInfo)
    : ValidatorSlot PeerID :=
  { s with peers := s.peers.insert peerID peer }

def initCounting (s : ValidatorSlot PeerID) : ValidatorSlot PeerID :=
  { s with
    state := .counting
    considered := ∅
    reachedThreshold := 0
    peers := Assoc.mapValues (fun _ peer => { peer with count := 0 }) s.peers }

def getSquelchDuration (numPeers : Int) (intN : Nat) : Duration :=
  let maxDuration := min (max (numPeers * squelchPerPeer) maxUnsquelchExpireDefault)
    maxUnsquelchExpirePeers
  let minSecs := minUnsquelchExpire / second
  let maxSecs := maxDuration / second
  (minSecs + (intN : Int) % (maxSecs - minSecs + 1)) * second

def candidates (s : ValidatorSlot PeerID) (c : Choices PeerID) : List PeerID :=
  s.peers.keys.filter fun peerID => peerID ∈ s.considered
    ∧ (s.peers.lookup peerID).any fun peer => c.sinceMessage peerID - peer.lastMessage < idled

def selectPeer (selected : List PeerID) (now : Time) (duration : Duration) (peerID : PeerID)
    (peer : RelayPeerInfo) : RelayPeerInfo :=
  let peer := { peer with count := 0 }
  if peerID ∈ selected then
    { peer with state := .selected }
  else if peer.state ≠ .squelched then
    { peer with state := .squelched, expire := now + duration }
  else
    peer

def selectPeers (s : ValidatorSlot PeerID) (c : Choices PeerID)
    : ValidatorSlot PeerID × List (SquelchCall PeerID) :=
  let candidates := s.candidates c
  if (candidates.length : Int) < s.maxSelectedPeers then
    (s.initCounting, [])
  else
    let selected := (c.shuffle candidates).take s.maxSelectedPeers.toNat
    let squelchablePeers := (s.peers.keys.length : Int) - s.maxSelectedPeers
    let duration := fun peerID => getSquelchDuration squelchablePeers (c.intN peerID)
    let calls := s.peers.entries.filterMap fun e =>
      if e.1 ∉ selected ∧ e.2.state ≠ .squelched then
        some { peerID := e.1, squelch := true, duration := duration e.1 }
      else
        none
    ({ s with
      peers := Assoc.mapValues (fun peerID => selectPeer selected c.now (duration peerID) peerID) s.peers
      lastSelected := c.now
      considered := ∅
      reachedThreshold := 0
      state := .selected }, calls)

def countMessage (s : ValidatorSlot PeerID) (peerID : PeerID) (peer : RelayPeerInfo)
    (c : Choices PeerID) : ValidatorSlot PeerID × List (SquelchCall PeerID) :=
  let peer := { peer with count := peer.count + 1 }
  let s := { s with
    peers := s.peers.insert peerID peer
    considered := if peer.count > minMessageThreshold then insert peerID s.considered else s.considered
    reachedThreshold :=
      if peer.count = maxMessageThreshold + 1 then s.reachedThreshold + 1 else s.reachedThreshold }
  if c.sinceSelected - s.lastSelected > 2 * maxUnsquelchExpireDefault then
    (s.initCounting, [])
  else if s.reachedThreshold = s.maxSelectedPeers then
    s.selectPeers c
  else
    (s, [])

def update (s : ValidatorSlot PeerID) (peerID : PeerID) (c : Choices PeerID)
    : ValidatorSlot PeerID × List (SquelchCall PeerID) × List PeerID :=
  match s.peers.lookup peerID with
  | none =>
    let peer := { state := .counting, count := 0, expire := c.now, lastMessage := c.now }
    ((s.setPeer peerID peer).initCounting, [], [])
  | some peer =>
    if peer.state = .squelched ∧ c.now > peer.expire then
      let peer := { peer with state := .counting, lastMessage := c.now }
      ((s.setPeer peerID peer).initCounting, [], [])
    else
      let peer := { peer with lastMessage := c.now }
      let ignored := if peer.state = .squelched then [peerID] else []
      let s := s.setPeer peerID peer
      if s.state ≠ .counting ∨ peer.state = .squelched then
        (s, [], ignored)
      else
        let (s, calls) := s.countMessage peerID peer c
        (s, calls, ignored)

def releasePeers (s : ValidatorSlot PeerID) (skip : PeerID → Bool) (now : Time)
    : ValidatorSlot PeerID × List (SquelchCall PeerID) :=
  let calls := s.peers.entries.filterMap fun e =>
    if !skip e.1 ∧ e.2.state = .squelched then
      some { peerID := e.1, squelch := false, duration := 0 }
    else
      none
  ({ s with
    peers := Assoc.mapValues (fun peerID peer =>
      if skip peerID then peer else { peer with state := .counting, count := 0, expire := now }) s.peers
    considered := ∅
    reachedThreshold := 0
    state := .counting }, calls)

def unconsider (s : ValidatorSlot PeerID) (peerID : PeerID) (peer : RelayPeerInfo)
    : ValidatorSlot PeerID :=
  if peerID ∈ s.considered then
    { s with
      reachedThreshold :=
        if peer.count > maxMessageThreshold then s.reachedThreshold - 1 else s.reachedThreshold
      considered := s.considered.erase peerID }
  else
    s

def deletePeer (s : ValidatorSlot PeerID) (peerID : PeerID) (now : Time) (erase : Bool)
    : ValidatorSlot PeerID × List (SquelchCall PeerID) :=
  match s.peers.lookup peerID with
  | none => (s, [])
  | some peer =>
    let (s, calls) :=
      if peer.state = .selected then s.releasePeers (fun _ => false) now
      else (s.unconsider peerID peer, [])
    let peers :=
      if erase then s.peers.erase peerID
      else Assoc.mapValues (fun id peer =>
        if id = peerID then { peer with count := 0, lastMessage := now } else peer) s.peers
    ({ s with peers }, calls)

def evict (s : ValidatorSlot PeerID) (now : Time) (id : PeerID)
    : ValidatorSlot PeerID × List (SquelchCall PeerID) :=
  match s.peers.lookup id with
  | none => (s, [])
  | some peer =>
    let (s, calls) :=
      if peer.state = .selected then s.releasePeers (fun k => decide (k = id)) now
      else (s.unconsider id peer, [])
    ({ s with peers := s.peers.erase id }, calls)

def evictAll (s : ValidatorSlot PeerID) (now : Time)
    : List PeerID → ValidatorSlot PeerID × List (SquelchCall PeerID)
  | [] => (s, [])
  | id :: ids =>
    let (s, calls) := s.evict now id
    let (s, rest) := s.evictAll now ids
    (s, calls ++ rest)

def idle (s : ValidatorSlot PeerID) (now : Time) (id : PeerID) : Bool :=
  (s.peers.lookup id).any fun peer => now - peer.lastMessage > idled

def deleteIdlePeers (s : ValidatorSlot PeerID) (now : Time) (order : List PeerID)
    : ValidatorSlot PeerID × List (SquelchCall PeerID) :=
  let toEvict := order.filter (s.idle now)
  let (s, calls) := s.evictAll now toEvict
  if s.state = .selected ∧ (s.peers.keys.length : Int) < s.maxSelectedPeers then
    (s.initCounting, calls)
  else
    (s, calls)

end ValidatorSlot

end Relay
