import GoXrpl.Disputes.Lemmas.Sound

/-!
This module contains the disputes over a whole round: which of the steps leave the votes of the peers
as their positions say, and which do not.
-/

open List AList Hash256

namespace Disputes

open Validations (NodeID LedgerID Time)
open Consensus (TxSetID)
open Accounting (countVotes)
open Assoc (mem_of_lookup)

section

variable [Sha512Half]

inductive Event where
  | trustChanged (trusted : List NodeID)
  | proposal (a : Adaptor) (p : Proposal)
  | txSet (a : Adaptor) (id : TxSetID) (txs : List Blob)
  | close (a : Adaptor) (order : Order Held) (txs : List Blob)
  | pruneUntrusted
  | pruneStale (cutoff : Time)
  | update (a : Adaptor) (parms : VoteParms)

namespace Engine

def result (e : Engine) : Except HandlerError Engine → Engine
  | .ok e' => e'
  | .error _ => e

def step (e : Engine) : Event → Engine
  | .trustChanged trusted => e.recordTrustTransition trusted
  | .proposal a p => e.result (e.onProposal a p)
  | .txSet a id txs => e.result (e.onTxSet a id txs)
  | .close a order txs => if e.phase = .opened then e.closeLedger a order txs else e
  | .pruneUntrusted => e.pruneUntrustedProposals
  | .pruneStale cutoff => e.pruneStaleProposals cutoff
  | .update a parms => e.updatePosition a parms

def run (e : Engine) (events : List Event) : Engine := events.foldl step e

structure Reflects (e : Engine) : Prop where
  yays : ∀ t d, e.disputeTracker.lookup t = some d → d.yays = countVotes true d.votes
  nays : ∀ t d, e.disputeTracker.lookup t = some d → d.nays = countVotes false d.votes
  voters : ∀ t d n, e.disputeTracker.lookup t = some d → n ∈ d.votes →
    n ∈ e.proposals ∧ (n ∈ e.trusted ∨ n ∈ e.pendingTrustPurge)
  disputed : ∀ ours id s t, e.ourTxSet = some ours → id ∈ e.comparesTxSets →
    e.acquiredTxSets.lookup id = some s → ours.contains t ≠ s.contains t → t ∈ e.disputeTracker
  voted : ∀ n p s, n ∈ e.trusted → e.proposals.lookup n = some p →
    e.acquiredTxSets.lookup p.txSet = some s →
    ∀ t d, e.disputeTracker.lookup t = some d → d.votes.lookup n = some (s.contains t)

structure Admits (e : Engine) (p : Proposal) : Prop where
  foreign : e.validatorKey ≠ some p.nodeID
  trusted : p.nodeID ∈ e.trusted
  active : e.phase ≠ .accepted
  prevLedger : ¬ (e.prevLedger.isSome ∧ e.prevLedger ≠ some p.previousLedger)
  alive : p.nodeID ∉ e.deadNodes
  stays : p.position ≠ seqLeave
  advances : (e.proposals.lookup p.nodeID).any (fun q => p.position ≤ q.position) = false

structure Loads (a : Adaptor) (e : Engine) (entry : Held) : Prop where
  trusted : entry.1 ∈ e.trusted
  missing : e.acquiredTxSets.lookup entry.2.txSet = none
  foreign : e.ourTxSet.any (fun ours => ours.id = entry.2.txSet) = false
  cached : (a.getTxSet entry.2.txSet).isSome

def LoadsFirst (a : Adaptor) : Engine → List Held → Prop
  | _, [] => True
  | e, entry :: entries =>
    (Loads a e entry → e.disputeTracker = ∅) ∧ LoadsFirst a (seedPosition a e entry) entries

def Settles (e : Engine) (a : Adaptor) (p : Proposal) : Prop :=
  ∀ s, a.getTxSet p.txSet = some s → p.txSet ∉ e.acquiredTxSets →
    ∀ n q, n ≠ p.nodeID → n ∈ e.trusted → e.proposals.lookup n = some q → q.txSet = p.txSet →
      ∀ t d, e.disputeTracker.lookup t = some d → d.votes.lookup n = some (s.contains t)

def Fills (e : Engine) : Event → Prop
  | .proposal a p =>
    a.verifyProposal p = true → e.purgePendingTrust.Admits p → e.purgePendingTrust.Settles a p
  | .close a order txs =>
    e.phase = .opened → ∀ ours, buildOurTxSet a txs = some ours →
      LoadsFirst a (e.purgePendingTrust.takeOurTxSet ours)
        (order.visit (e.purgePendingTrust.takeOurTxSet ours).proposals.entries)
  | _ => True

def FillsAlong (e : Engine) : List Event → Prop
  | [] => True
  | event :: events => e.Fills event ∧ (e.step event).FillsAlong events

variable {e e' : Engine} {a : Adaptor}

structure Inv (e : Engine) : Prop where
  sound : e.Sound
  opened : e.phase = .opened → e.ourTxSet = none

theorem reflects_iff_voted (h : e.Sound) : e.Reflects ↔ e.Voted := by
  constructor
  . intro hreflects n s hs t d hd
    obtain ⟨p, hp, hn, hs⟩ := standing_eq_some_iff.mp hs
    exact hreflects.voted n p s hn hp hs t d hd
  intro hvoted
  constructor
  case yays => exact fun t d hd => (h.counted t d hd).yays
  case nays => exact fun t d hd => (h.counted t d hd).nays
  case voters =>
    intro t d n hd hn
    obtain ⟨v, hv⟩ := Option.isSome_iff_exists.mp (lookup_isSome.mpr hn)
    have hmem := h.holder t d n v hd hv
    exact ⟨hmem, h.trusted n hmem⟩
  case disputed => exact h.differ
  case voted =>
    intro n p s hn hp hs
    exact hvoted n s (standing_eq_some_iff.mpr ⟨p, hp, hn, hs⟩)

theorem onProposal_of_admits (hverify : a.verifyProposal p = true)
    (h : e.purgePendingTrust.Admits p)
    : e.onProposal a p
        = .ok ((e.purgePendingTrust.setPosition p).wirePosition a p) := by
  unfold onProposal
  rw [if_neg (by rw [hverify]; exact Bool.noConfusion)]
  rw [if_neg h.foreign, if_neg (not_not.mpr h.trusted), if_neg h.active, if_neg h.prevLedger,
    if_neg h.alive, if_neg h.stays]
  unfold store
  rw [if_neg (by rw [h.advances]; exact Bool.noConfusion)]

theorem onProposal_of_not_admits (h : ¬ e.purgePendingTrust.Admits p)
    : e.result (e.onProposal a p) = e ∨ e.result (e.onProposal a p) = e.purgePendingTrust
      ∨ e.result (e.onProposal a p)
          = { e.purgePendingTrust.dropNode p.nodeID with
              deadNodes := p.nodeID :: e.purgePendingTrust.deadNodes } := by
  unfold onProposal
  split
  . exact .inl rfl
  right
  by_cases hkey : e.purgePendingTrust.validatorKey = some p.nodeID
  . rw [if_pos hkey]
    exact .inl rfl
  rw [if_neg hkey]
  by_cases htrusted : p.nodeID ∉ e.purgePendingTrust.trusted
  . rw [if_pos htrusted]
    exact .inl rfl
  rw [if_neg htrusted]
  by_cases hphase : e.purgePendingTrust.phase = .accepted
  . rw [if_pos hphase]
    exact .inl rfl
  rw [if_neg hphase]
  split
  . exact .inl rfl
  rename_i hprev
  by_cases hdead : p.nodeID ∈ e.purgePendingTrust.deadNodes
  . rw [if_pos hdead]
    exact .inl rfl
  rw [if_neg hdead]
  by_cases hleave : p.position = seqLeave
  . rw [if_pos hleave]
    exact .inr rfl
  rw [if_neg hleave]
  unfold store
  split
  . exact .inl rfl
  rename_i hstore
  exfalso
  split at hstore
  . cases hstore
  rename_i hadvances
  apply h
  exact ⟨hkey, not_not.mp htrusted, hphase, hprev, hdead, hleave, by simpa using hadvances⟩

theorem id_of_getTxSet {id : TxSetID} (h : a.getTxSet id = some s) : s.id = id := by
  simpa using find?_some h

theorem Sound.cacheTxSet (h : e.Sound) (id : TxSetID) : (e.cacheTxSet a id).Sound := by
  unfold Engine.cacheTxSet
  split
  . exact h
  rename_i hget
  split
  . exact h
  next hnew => exact h.acquire (id_of_getTxSet hget) hnew

theorem cacheTxSet_eq (e : Engine) (a : Adaptor) (id : TxSetID)
    : e.cacheTxSet a id = { e with acquiredTxSets := (e.cacheTxSet a id).acquiredTxSets } := by
  unfold cacheTxSet
  split
  . rfl
  split
  . rfl
  . rfl

theorem Sound.wirePosition (h : e.Sound) (hp : p.nodeID ∈ e.proposals)
    : (e.wirePosition a p).Sound := by
  have hcache := h.cacheTxSet (a := a) p.txSet
  unfold Engine.wirePosition
  dsimp only
  split
  next hs =>
    split
    . exact hcache
    have hid := hcache.acquired _ _ hs
    apply (hcache.createDisputesAgainst (hid.symm ▸ hs)).updateDisputes
    rw [Extends.createDisputesAgainst.rewired.proposals, cacheTxSet_eq]
    exact hp
  . exact hcache

theorem voted_wirePosition (h : e.Sound) (hp : e.proposals.lookup p.nodeID = some p)
    : (e.wirePosition a p).Voted
        ↔ ∀ n, n ≠ p.nodeID → (e.cacheTxSet a p.txSet).VotedFor n := by
  have hcache := h.cacheTxSet (a := a) p.txSet
  have hlookup : (e.cacheTxSet a p.txSet).proposals.lookup p.nodeID = some p := by
    rw [cacheTxSet_eq]
    exact hp
  unfold Engine.wirePosition
  dsimp only
  split
  next s hours hs =>
    split
    next htrusted =>
      constructor
      . exact fun hvoted n _ => hvoted n
      intro hvoted n
      by_cases hn : n = p.nodeID
      . subst hn
        intro s' hs'
        rw [standing_eq_of_lookup hlookup, positionOf_eq_some_iff] at hs'
        exact absurd hs'.1 htrusted
      . exact hvoted n hn
    next =>
      have hothers : ∀ n, n ≠ p.nodeID →
          ((((e.cacheTxSet a p.txSet).createDisputesAgainst s).updateDisputes p.nodeID s).VotedFor n
            ↔ (e.cacheTxSet a p.txSet).VotedFor n) := by
        intro n hn
        rw [votedFor_updateDisputes_ne hn, votedFor_extends .createDisputesAgainst]
      constructor
      . exact fun hvoted n hn => (hothers n hn).mp (hvoted n)
      intro hvoted n
      by_cases hn : n = p.nodeID
      . subst hn
        apply votedFor_updateDisputes_self
        intro s' hs'
        rw [Extends.createDisputesAgainst.rewired.standing, standing_eq_of_lookup hlookup,
          positionOf_eq_some_iff, hs] at hs'
        cases hs'.2
        rfl
      . exact (hothers n hn).mpr (hvoted n hn)
  rename_i hnot
  constructor
  . exact fun hvoted n _ => hvoted n
  intro hvoted n
  by_cases hn : n = p.nodeID
  . subst hn
    intro s hs
    rw [standing_eq_of_lookup hlookup, positionOf_eq_some_iff] at hs
    cases hours : (e.cacheTxSet a p.txSet).ourTxSet with
    | none =>
      intro t d hd
      rw [(hcache.quiet hours).2] at hd
      cases hd
    | some ours => exact absurd hs.2 (hnot ours s hours)
  . exact hvoted n hn

theorem votedFor_cacheTxSet_iff
    : (∀ n, n ≠ p.nodeID → (e.cacheTxSet a p.txSet).VotedFor n)
        ↔ (∀ n, n ≠ p.nodeID → e.VotedFor n) ∧ e.Settles a p := by
  unfold cacheTxSet Settles
  cases hget : a.getTxSet p.txSet with
  | none =>
    constructor
    . exact fun hvoted => ⟨hvoted, fun s hs => by cases hs⟩
    . exact fun hvoted => hvoted.1
  | some s =>
    dsimp only
    by_cases hnew : p.txSet ∈ e.acquiredTxSets
    . rw [if_pos hnew]
      constructor
      . exact fun hvoted => ⟨hvoted, fun _ _ hnot => absurd hnew hnot⟩
      . exact fun hvoted => hvoted.1
    rw [if_neg hnew]
    simp only [votedFor_acquire hnew]
    constructor
    . intro hvoted
      refine ⟨fun n hn => (hvoted n hn).1, ?_⟩
      rintro _ ⟨⟩ - n q hn htrusted hq hid
      exact (hvoted n hn).2 q htrusted hq hid
    intro hvoted n hn
    exact ⟨hvoted.1 n hn, fun q htrusted hq hid => hvoted.2 s rfl hnew n q hn htrusted hq hid⟩

theorem seedPosition_of_loads (h : Loads a e entry)
    : ∃ s, a.getTxSet entry.2.txSet = some s
        ∧ seedPosition a e entry = (e.acquire entry.2.txSet s).createDisputesAgainst s := by
  obtain ⟨s, hs⟩ := Option.isSome_iff_exists.mp h.cached
  refine ⟨s, hs, ?_⟩
  unfold seedPosition
  rw [if_neg (not_not.mpr h.trusted), h.missing]
  rw [if_neg (by rw [h.foreign]; exact Bool.noConfusion), hs]

theorem extends_seedPosition (h : e.Sound) (hloads : ¬ Loads a e entry)
    : Extends e (seedPosition a e entry) ∧ (seedPosition a e entry).Sound := by
  unfold seedPosition
  split
  . exact ⟨.refl e, h⟩
  rename_i htrusted
  split
  next s hs =>
    have hid := h.acquired _ _ hs
    exact ⟨.createDisputesAgainst, h.createDisputesAgainst (hid.symm ▸ hs)⟩
  rename_i hmissing
  split
  . exact ⟨.refl e, h⟩
  rename_i hforeign
  split
  next s hs =>
    exfalso
    exact hloads ⟨not_not.mp htrusted, hmissing, by simpa using hforeign, by rw [hs]; rfl⟩
  next => exact ⟨.refl e, h⟩

theorem Sound.loadPosition (h : e.Sound) (hloads : Loads a e entry)
    : (seedPosition a e entry).Sound := by
  obtain ⟨s, hs, heq⟩ := seedPosition_of_loads hloads
  have hid := id_of_getTxSet hs
  rw [heq]
  apply (h.acquire hid (lookup_eq_none.mp hloads.missing)).createDisputesAgainst
  rw [hid]
  apply lookup_insert

theorem Sound.seedPosition (h : e.Sound) : (seedPosition a e entry).Sound := by
  by_cases hloads : Loads a e entry
  . exact h.loadPosition hloads
  . exact (extends_seedPosition h hloads).2

structure Grows (e e' : Engine) : Prop where
  standing : ∀ n s, e.standing n = some s → e'.standing n = some s
  old : ∀ t d, e.disputeTracker.lookup t = some d → e'.disputeTracker.lookup t = some d

theorem Extends.grows (h : Extends e e') : Grows e e' where
  standing := by
    rw [h.rewired.standing]
    exact fun n s hs => hs
  old := h.old

omit [Sha512Half] in
theorem Grows.trans (h : Grows e e') (h' : Grows e' e'') : Grows e e'' where
  standing := fun n s hs => h'.standing n s (h.standing n s hs)
  old := fun t d hd => h'.old t d (h.old t d hd)

omit [Sha512Half] in
theorem Grows.acquire {id : TxSetID} (h : id ∉ e.acquiredTxSets)
    : Grows e (e.acquire id s) where
  standing := by
    intro n s' hs'
    obtain ⟨q, hq, hn, hlookup⟩ := standing_eq_some_iff.mp hs'
    refine standing_eq_some_iff.mpr ⟨q, hq, hn, (lookup_insert_ne ?_).trans hlookup⟩
    rintro rfl
    exact h (mem_of_lookup hlookup)
  old := fun _ _ h => h

theorem Grows.seedPosition (h : e.Sound) : Grows e (seedPosition a e entry) := by
  by_cases hloads : Loads a e entry
  . obtain ⟨s, hs, heq⟩ := seedPosition_of_loads hloads
    rw [heq]
    exact (Grows.acquire (lookup_eq_none.mp hloads.missing)).trans
      Extends.createDisputesAgainst.grows
  . exact (extends_seedPosition h hloads).1.grows

theorem Grows.foldl_seedPosition (h : e.Sound) (l : List Held)
    : Grows e (l.foldl (Engine.seedPosition a) e) := by
  induction l generalizing e with
  | nil => exact ⟨fun _ _ hs => hs, fun _ _ hd => hd⟩
  | cons entry l ih => exact (Grows.seedPosition h).trans (ih h.seedPosition)

theorem seedPosition_keeps (a : Adaptor) (e : Engine) (entry : Held)
    : (seedPosition a e entry).proposals = e.proposals
      ∧ (seedPosition a e entry).pendingTrustPurge = e.pendingTrustPurge := by
  have hdisputes (e : Engine) (s : TxSet) : (e.createDisputesAgainst s).proposals = e.proposals
      ∧ (e.createDisputesAgainst s).pendingTrustPurge = e.pendingTrustPurge :=
    ⟨Extends.createDisputesAgainst.rewired.proposals,
      Extends.createDisputesAgainst.rewired.pendingTrustPurge⟩
  unfold seedPosition
  split
  . exact ⟨rfl, rfl⟩
  split
  . exact hdisputes _ _
  split
  . exact ⟨rfl, rfl⟩
  split
  . exact hdisputes _ _
  . exact ⟨rfl, rfl⟩

def VotersStand (e : Engine) : Prop :=
  ∀ t d n v, e.disputeTracker.lookup t = some d → d.votes.lookup n = some v →
    (e.standing n).isSome

theorem VotersStand.extends (h : e.VotersStand) (hext : Extends e e') : e'.VotersStand := by
  intro t d n v hd hv
  rw [hext.rewired.standing]
  cases hold : e.disputeTracker.lookup t with
  | none =>
    rw [(hext.new t d hold hd).votes] at hv
    obtain ⟨s, hs, -⟩ := Option.map_eq_some_iff.mp hv
    rw [hs]
    rfl
  | some d' =>
    have heq := hext.old t d' hold
    rw [hd] at heq
    cases heq
    exact h t d n v hold hv

theorem VotersStand.seedPosition (h : e.VotersStand) (hsound : e.Sound)
    : (seedPosition a e entry).VotersStand := by
  by_cases hloads : Loads a e entry
  . obtain ⟨s, hs, heq⟩ := seedPosition_of_loads hloads
    have hgrows : Grows e (e.acquire entry.2.txSet s) :=
      .acquire (lookup_eq_none.mp hloads.missing)
    rw [heq]
    refine VotersStand.extends ?_ .createDisputesAgainst
    intro t d n v hd hv
    obtain ⟨s', hs'⟩ := Option.isSome_iff_exists.mp (h t d n v hd hv)
    rw [hgrows.standing n s' hs']
    rfl
  . exact h.extends (extends_seedPosition hsound hloads).1

theorem not_voted_of_loads (hsound : e.Sound) (hstand : e.VotersStand)
    (hentry : e.proposals.lookup entry.1 = some entry.2) (hloads : Loads a e entry)
    (hdisputes : e.disputeTracker ≠ ∅) (l : List Held)
    : ¬ (l.foldl (seedPosition a) (seedPosition a e entry)).Voted := by
  intro hvoted
  obtain ⟨s, hs, heq⟩ := seedPosition_of_loads hloads
  have hnone : e.standing entry.1 = none := by
    rw [standing_eq_of_lookup hentry]
    unfold positionOf
    rw [if_pos hloads.trusted, hloads.missing]
  have hsome : (seedPosition a e entry).standing entry.1 = some s := by
    rw [heq, Extends.createDisputesAgainst.rewired.standing]
    exact standing_eq_some_iff.mpr ⟨entry.2, hentry, hloads.trusted, lookup_insert _⟩
  have hexists : ∃ t d, e.disputeTracker.lookup t = some d := by
    by_contra hnot
    simp only [not_exists] at hnot
    apply hdisputes
    apply ext
    cases hentries : e.disputeTracker.entries with
    | nil => rfl
    | cons dispute rest =>
      exfalso
      apply hnot dispute.1 dispute.2
      rw [← Assoc.mem_entries_iff, hentries]
      exact mem_cons_self
  obtain ⟨t, d, hd⟩ := hexists
  have hrest := Grows.foldl_seedPosition (a := a) (hsound.loadPosition hloads) l
  have hold := hrest.old t d ((Grows.seedPosition hsound).old t d hd)
  have hvote := hvoted entry.1 s (hrest.standing entry.1 s hsome) t d hold
  have hsees := hstand t d entry.1 _ hd hvote
  rw [hnone] at hsees
  cases hsees

theorem Voted.seedPosition (h : e.Voted) (hsound : e.Sound)
    (hloads : Loads a e entry → e.disputeTracker = ∅)
    : (seedPosition a e entry).Voted := by
  intro n
  by_cases hloads' : Loads a e entry
  . obtain ⟨s, hs, heq⟩ := seedPosition_of_loads hloads'
    rw [heq, votedFor_extends .createDisputesAgainst]
    have hempty : (e.acquire entry.2.txSet s).disputeTracker = ∅ := hloads hloads'
    exact Voted.of_disputeTracker_eq_empty hempty n
  rw [votedFor_extends (extends_seedPosition hsound hloads').1]
  exact h n

theorem voted_foldl_seedPosition (l : List Held) (hsound : e.Sound)
    (hstand : e.VotersStand) (hvoted : e.Voted)
    (hl : ∀ entry ∈ l, e.proposals.lookup entry.1 = some entry.2)
    : (l.foldl (seedPosition a) e).Voted ↔ LoadsFirst a e l := by
  induction l generalizing e with
  | nil => exact ⟨fun _ => trivial, fun _ => hvoted⟩
  | cons entry l ih =>
    by_cases hlate : Loads a e entry → e.disputeTracker = ∅
    . rw [foldl_cons, ih hsound.seedPosition (hstand.seedPosition hsound)
        (hvoted.seedPosition hsound hlate)]
      . exact ⟨fun h => ⟨hlate, h⟩, fun h => h.2⟩
      rw [(seedPosition_keeps ..).1]
      exact fun entry' hentry' => hl entry' (mem_cons_of_mem entry hentry')
    rw [Classical.not_imp] at hlate
    constructor
    . intro h
      exact absurd h
        (not_voted_of_loads hsound hstand (hl entry mem_cons_self) hlate.1 hlate.2 l)
    . exact fun h => absurd (h.1 hlate.1) hlate.2

omit [Sha512Half] in
theorem takeOurTxSet_disputeTracker (ours : TxSet) (h : e.disputeTracker = ∅)
    : (e.takeOurTxSet ours).disputeTracker = ∅ :=
  disputeTracker_pruneUntrustedProposals h

theorem Sound.foldl_seedPosition (h : e.Sound) (l : List Held)
    : (l.foldl (Engine.seedPosition a) e).Sound := by
  induction l generalizing e with
  | nil => exact h
  | cons entry l ih => exact ih h.seedPosition

theorem Inv.purgePendingTrust (h : e.Inv) : e.purgePendingTrust.Inv where
  sound := h.sound.purgePendingTrust
  opened := by
    rw [purgePendingTrust_eq]
    exact h.opened

theorem Inv.foldl_dropNode (h : e.Inv) (l : List NodeID) : (l.foldl dropNode e).Inv where
  sound := h.sound.foldl_dropNode l
  opened := by
    rw [Engine.foldl_dropNode]
    exact h.opened

theorem Inv.rewired (h : e.Inv) (hsound : e'.Sound) (hrewired : Rewired e e') : e'.Inv where
  sound := hsound
  opened := by
    rw [hrewired.phase, hrewired.ourTxSet]
    exact h.opened

def restored (e : Engine) : Engine := { e with trusted := e.trusted ++ e.pendingTrustPurge }

theorem Voted.of_trusted_subset {trusted : List NodeID} (h : {e with trusted : Engine }.Voted)
    (hsub : ∀ n ∈ e.proposals, n ∈ e.trusted → n ∈ trusted)
    : e.Voted := by
  intro n s hs
  obtain ⟨p, hp, hn, hlookup⟩ := standing_eq_some_iff.mp hs
  apply h n s
  exact standing_eq_some_iff.mpr ⟨p, hp, hsub n (mem_of_lookup hp) hn, hlookup⟩

theorem Voted.of_restored (h : e.restored.Voted) : e.Voted :=
  h.of_trusted_subset fun _ _ hn => mem_append_left _ hn

omit [Sha512Half] in
theorem restored_eq (h : e.pendingTrustPurge = []) : e.restored = e := by
  have htrusted : e.trusted ++ e.pendingTrustPurge = e.trusted := by
    rw [h, append_nil]
  unfold restored
  rw [htrusted]

structure Steps (e : Engine) (event : Event) (e' : Engine) : Prop where
  inv : e'.Inv
  voted : e'.Voted ↔ e.Fills event
  restored : e'.Voted → e'.restored.Voted

theorem Steps.same (h : e.Inv) (hvoted : e.restored.Voted) (hfills : e.Fills event)
    : Steps e event e :=
  ⟨h, ⟨fun _ => hfills, fun _ => hvoted.of_restored⟩, fun _ => hvoted⟩

theorem Steps.of_pending (hinv : e'.Inv) (hvoted : e'.Voted ↔ e.Fills event)
    (hpending : e'.pendingTrustPurge = [])
    : Steps e event e' := by
  refine ⟨hinv, hvoted, ?_⟩
  rw [restored_eq hpending]
  exact id

theorem Steps.of_voted (hinv : e'.Inv) (hvoted : e'.Voted) (hfills : e.Fills event)
    (hpending : e'.pendingTrustPurge = [])
    : Steps e event e' :=
  .of_pending hinv ⟨fun _ => hfills, fun _ => hvoted⟩ hpending

theorem Steps.purged (h : e.Inv) (hvoted : e.restored.Voted) (hfills : e.Fills event)
    : Steps e event e.purgePendingTrust :=
  .of_voted h.purgePendingTrust hvoted.of_restored.purgePendingTrust hfills rfl

theorem wirePosition_keeps (e : Engine) (a : Adaptor) (p : Proposal)
    : (e.wirePosition a p).phase = e.phase ∧ (e.wirePosition a p).ourTxSet = e.ourTxSet
      ∧ (e.wirePosition a p).pendingTrustPurge = e.pendingTrustPurge := by
  have hrewired : Rewired (e.cacheTxSet a p.txSet) (e.wirePosition a p) := by
    unfold wirePosition
    dsimp only
    split
    . split
      . exact .refl _
      . exact Extends.createDisputesAgainst.rewired.trans .updateDisputes
    . exact .refl _
  rw [hrewired.phase, hrewired.ourTxSet, hrewired.pendingTrustPurge, cacheTxSet_eq]
  exact ⟨rfl, rfl, rfl⟩

omit [Sha512Half] in
theorem lookup_setPosition_ne (h : n ≠ p.nodeID)
    : (e.setPosition p).proposals.lookup n = e.proposals.lookup n :=
  lookup_insert_ne h

theorem votedFor_setPosition_ne (h : n ≠ p.nodeID)
    : (e.setPosition p).VotedFor n ↔ e.VotedFor n := by
  apply votedFor_congr
  . unfold standing
    rw [lookup_setPosition_ne h]
    rfl
  . rfl

theorem settles_setPosition : (e.setPosition p).Settles a p ↔ e.Settles a p := by
  constructor
  . intro hsettles s hs hnew n q hn
    have hsettle := hsettles s hs hnew n q hn
    rw [lookup_setPosition_ne hn] at hsettle
    exact hsettle
  intro hsettles s hs hnew n q hn
  rw [lookup_setPosition_ne hn]
  exact hsettles s hs hnew n q hn

theorem proposal_cases (e : Engine) (a : Adaptor) (p : Proposal)
    : (a.verifyProposal p = true ∧ e.purgePendingTrust.Admits p
        ∧ e.step (.proposal a p) = (e.purgePendingTrust.setPosition p).wirePosition a p)
      ∨ (a.verifyProposal p = true → ¬ e.purgePendingTrust.Admits p)
        ∧ (e.step (.proposal a p) = e ∨ e.step (.proposal a p) = e.purgePendingTrust
          ∨ e.step (.proposal a p) = { e.purgePendingTrust.dropNode p.nodeID with
              deadNodes := p.nodeID :: e.purgePendingTrust.deadNodes }) := by
  by_cases hverify : a.verifyProposal p = true
  . by_cases hadmits : e.purgePendingTrust.Admits p
    . left
      refine ⟨hverify, hadmits, ?_⟩
      show e.result (e.onProposal a p) = _
      rw [onProposal_of_admits hverify hadmits]
      rfl
    . exact .inr ⟨fun _ => hadmits, onProposal_of_not_admits hadmits⟩
  right
  refine ⟨fun htrue => absurd htrue hverify, .inl ?_⟩
  show e.result (e.onProposal a p) = e
  unfold onProposal
  rw [if_pos (by simpa using hverify)]
  rfl

theorem Steps.proposal (h : e.Inv) (hvoted : e.restored.Voted)
    : Steps e (.proposal a p) (e.step (.proposal a p)) := by
  have hpurge := h.purgePendingTrust
  have hpurged := hvoted.of_restored.purgePendingTrust
  obtain ⟨hverify, hadmits, heq⟩ | ⟨hnot, hcases⟩ := proposal_cases e a p
  . rw [heq]
    have hsound := hpurge.sound.setPosition hadmits.trusted
    obtain ⟨hsame, hours, hpending⟩ := wirePosition_keeps (e.purgePendingTrust.setPosition p) a p
    refine .of_pending ⟨hsound.wirePosition ((mem_insert _).mpr (.inl rfl)), ?_⟩ ?_ hpending
    . intro hphase
      exact hours.trans (hpurge.opened (hsame.symm.trans hphase))
    refine (voted_wirePosition hsound (lookup_insert _)).trans ?_
    rw [votedFor_cacheTxSet_iff, settles_setPosition]
    have hothers : ∀ n, n ≠ p.nodeID → (e.purgePendingTrust.setPosition p).VotedFor n := by
      intro n hn
      exact (votedFor_setPosition_ne hn).mpr (hpurged n)
    exact ⟨fun h _ _ => h.2, fun h => ⟨hothers, h hverify hadmits⟩⟩
  have hfills : e.Fills (.proposal a p) := fun htrue hadmits => absurd hadmits (hnot htrue)
  obtain heq | heq | heq := hcases
  . rw [heq]
    exact .same h hvoted hfills
  . rw [heq]
    exact .purged h hvoted hfills
  rw [heq]
  exact .of_voted ⟨{ hpurge.sound.dropNode p.nodeID with }, hpurge.opened⟩
    (hpurged.dropNode p.nodeID) hfills rfl

section TxSet

variable {id : TxSetID}

theorem onTxSet_cases (e : Engine) (a : Adaptor) (id : TxSetID) (txs : List Blob)
    : e.result (e.onTxSet a id txs) = e ∨ e.result (e.onTxSet a id txs) = e.purgePendingTrust
      ∨ ∃ s, s.id = id ∧ id ∉ e.purgePendingTrust.acquiredTxSets
          ∧ ((∀ ours, e.purgePendingTrust.ourTxSet = some ours → id = ours.id)
                ∧ e.result (e.onTxSet a id txs) = e.purgePendingTrust.acquire id s
            ∨ e.result (e.onTxSet a id txs)
                = ((e.purgePendingTrust.acquire id s).createDisputesAgainst s).updateStanding id s) := by
  unfold onTxSet
  split
  . exact .inl rfl
  rename_i s hs
  split
  . exact .inl rfl
  rename_i hid
  split
  . exact .inl rfl
  right
  dsimp only
  split
  . exact .inl rfl
  rename_i hnew
  right
  refine ⟨s, not_not.mp hid, hnew, ?_⟩
  split
  next hours =>
    left
    refine ⟨?_, rfl⟩
    intro ours hsome
    exact absurd (hours.symm.trans hsome) (by simp)
  rename_i ours hours
  split
  next heq =>
    left
    refine ⟨?_, rfl⟩
    intro ours' hsome
    rw [heq]
    exact congrArg TxSet.id (Option.some.inj (hours.symm.trans hsome))
  next => exact .inr rfl

omit [Sha512Half] in
theorem lookup_acquire_self (hid : s.id = id)
    : (e.acquire id s).acquiredTxSets.lookup s.id = some s := by
  subst hid
  apply lookup_insert

theorem Steps.txSet (h : e.Inv) (hvoted : e.restored.Voted)
    : Steps e (.txSet a id txs) (e.step (.txSet a id txs)) := by
  have hpurge := h.purgePendingTrust
  have hpurged := hvoted.of_restored.purgePendingTrust
  show Steps e _ (e.result (e.onTxSet a id txs))
  obtain heq | heq | ⟨s, hid, hnew, hcases⟩ := onTxSet_cases e a id txs
  . rw [heq]
    exact .same h hvoted trivial
  . rw [heq]
    exact .purged h hvoted trivial
  have hacquire : (e.purgePendingTrust.acquire id s).Inv :=
    ⟨hpurge.sound.acquire hid hnew, hpurge.opened⟩
  obtain ⟨hours, heq⟩ | heq := hcases
  . rw [heq]
    refine .of_voted hacquire ?_ trivial rfl
    cases hsome : e.purgePendingTrust.ourTxSet with
    | none => exact .of_disputeTracker_eq_empty (hpurge.sound.quiet hsome).2
    | some ours =>
      -- our own set has been acquired
      exfalso
      apply hnew
      rw [hours ours hsome]
      exact mem_of_lookup (hpurge.sound.ours ours hsome)
  rw [heq]
  have hsound := hacquire.sound.createDisputesAgainst (lookup_acquire_self hid)
  have hrewired : Rewired (e.purgePendingTrust.acquire id s)
      (((e.purgePendingTrust.acquire id s).createDisputesAgainst s).updateStanding id s) :=
    Extends.createDisputesAgainst.rewired.trans .updateStanding
  refine .of_voted (hacquire.rewired (hsound.updateStanding id s) hrewired) ?_ trivial
    hrewired.pendingTrustPurge
  apply Voted.updateStanding
  . rw [Extends.createDisputesAgainst.rewired.acquiredTxSets]
    subst hid
    exact lookup_acquire_self rfl
  intro n hn
  rw [votedFor_extends .createDisputesAgainst, votedFor_acquire hnew]
  refine ⟨hpurged n, ?_⟩
  intro q _ hq hqid
  rw [Extends.createDisputesAgainst.rewired.proposals] at hn
  exact absurd hqid (hn q hq)

end TxSet

def setOurVotes (e : Engine) (parms : VoteParms) : Engine :=
  { e with disputeTracker := (e.disputeTracker.updateOurVote parms).1 }

def setOurTxSet (e : Engine) (s : TxSet) : Engine :=
  { e with ourTxSet := some s, acquiredTxSets := e.acquiredTxSets.insert s.id s }

theorem updatePosition_cases (e : Engine) (a : Adaptor) (parms : VoteParms)
    : e.updatePosition a parms = e.purgePendingTrust
      ∨ e.updatePosition a parms = e.purgePendingTrust.setOurVotes parms
      ∨ ∃ ours s, e.purgePendingTrust.ourTxSet = some ours
          ∧ a.buildTxSet ((e.purgePendingTrust.setOurVotes parms).newBlobs ours
              (e.purgePendingTrust.disputeTracker.updateOurVote parms).2) = some s
          ∧ e.updatePosition a parms
              = ((e.purgePendingTrust.setOurVotes parms).setOurTxSet s).updateStanding s.id s := by
  unfold updatePosition
  dsimp only
  split
  . exact .inl rfl
  rename_i ours hours
  right
  split
  . exact .inl rfl
  split
  . exact .inl rfl
  rename_i s hs
  split
  . exact .inl rfl
  . exact .inr ⟨ours, s, hours, hs, rfl⟩

theorem Voted.setOurVotes (hvoted : e.Voted) : (e.setOurVotes parms).Voted := by
  intro n s hs t d hd
  obtain ⟨d', hd', rfl⟩ :=
    Option.map_eq_some_iff.mp ((DisputeTracker.lookup_updateOurVote parms).symm.trans hd)
  rw [DisputedTx.votes_updateOurVote]
  exact hvoted n s hs t d' hd'

theorem votedFor_setOurTxSet (e : Engine) (h : ∀ p, e.proposals.lookup n = some p → p.txSet ≠ s.id)
    : (e.setOurTxSet s).VotedFor n ↔ e.VotedFor n := by
  apply votedFor_congr
  . show (e.proposals.lookup n).bind _ = (e.proposals.lookup n).bind _
    cases hp : e.proposals.lookup n with
    | none => rfl
    | some p =>
      show (if n ∈ e.trusted then (e.acquiredTxSets.insert s.id s).lookup p.txSet else none) = _
      rw [lookup_insert_ne (h p hp)]
      rfl
  . rfl

theorem Steps.update (h : e.Inv) (hvoted : e.restored.Voted)
    : Steps e (.update a parms) (e.step (.update a parms)) := by
  have hpurge := h.purgePendingTrust
  have hvotes : (e.purgePendingTrust.setOurVotes parms).Inv :=
    ⟨hpurge.sound.updateOurVote parms, hpurge.opened⟩
  have hvotes' : (e.purgePendingTrust.setOurVotes parms).Voted :=
    hvoted.of_restored.purgePendingTrust.setOurVotes
  show Steps e _ (e.updatePosition a parms)
  obtain heq | heq | ⟨ours, s, hours, hbuild, heq⟩ := updatePosition_cases e a parms
  . rw [heq]
    exact .purged h hvoted trivial
  . rw [heq]
    exact .of_voted hvotes hvotes' trivial rfl
  rw [heq]
  refine .of_voted ⟨?_, ?_⟩ ?_ trivial Rewired.updateStanding.pendingTrustPurge
  . apply Sound.updateStanding
    apply hvotes.sound.replaceOurTxSet hours _ hbuild
    intro t ht
    rw [← lookup_isSome]
    refine (congrArg Option.isSome (DisputeTracker.lookup_updateOurVote parms)).trans ?_
    rw [Option.isSome_map, lookup_isSome]
    exact DisputeTracker.mem_of_mem_updateOurVote ht
  . intro hphase
    rw [Rewired.updateStanding.phase] at hphase
    have hnone := hpurge.opened hphase
    rw [hours] at hnone
    cases hnone
  apply Voted.updateStanding
  . apply lookup_insert
  intro n hn
  exact (votedFor_setOurTxSet (e.purgePendingTrust.setOurVotes parms) hn).mpr (hvotes' n)

theorem pendingTrustPurge_foldl_seedPosition (l : List Held)
    : (l.foldl (seedPosition a) e).pendingTrustPurge = e.pendingTrustPurge := by
  induction l generalizing e with
  | nil => rfl
  | cons entry l ih =>
    rw [foldl_cons, ih, (seedPosition_keeps ..).2]

theorem Steps.close (h : e.Inv) (hvoted : e.restored.Voted)
    : Steps e (.close a order txs) (e.step (.close a order txs)) := by
  have hpurge := h.purgePendingTrust
  show Steps e _ (if e.phase = .opened then e.closeLedger a order txs else e)
  by_cases hphase : e.phase = .opened
  . rw [if_pos hphase]
    unfold closeLedger
    cases hours : buildOurTxSet a txs with
    | none =>
      apply Steps.purged h hvoted
      rintro - ours hsome
      rw [hours] at hsome
      cases hsome
    | some ours =>
      have hnone : e.purgePendingTrust.ourTxSet = none := by
        apply hpurge.opened
        rw [purgePendingTrust_eq]
        exact hphase
      have htake := hpurge.sound.takeOurTxSet hnone ours
      have hempty := takeOurTxSet_disputeTracker ours (hpurge.sound.quiet hnone).2
      have hstand : (e.purgePendingTrust.takeOurTxSet ours).VotersStand := by
        intro t d n v hd
        rw [hempty] at hd
        cases hd
      have hloop := voted_foldl_seedPosition (a := a)
        (order.visit (e.purgePendingTrust.takeOurTxSet ours).proposals.entries) htake hstand
        (.of_disputeTracker_eq_empty hempty) (by
          intro entry hentry
          exact Assoc.mem_entries_iff.mp ((order.perm _).mem_iff.mp hentry))
      refine .of_pending ⟨{ htake.foldl_seedPosition _ with }, fun hopened => by cases hopened⟩
        (Iff.trans ?_ (hloop.trans ?_)) (pendingTrustPurge_foldl_seedPosition _)
      . exact Iff.rfl
      constructor
      . intro hfirst _ ours' hours'
        rw [hours] at hours'
        cases hours'
        exact hfirst
      . exact fun hfirst => hfirst hphase ours hours
  rw [if_neg hphase]
  exact .same h hvoted fun hopened => absurd hopened hphase

theorem Voted.trustChanged (h : e.restored.Voted) (hsound : e.Sound) (trusted : List NodeID)
    : (e.recordTrustTransition trusted).restored.Voted := by
  have hrecord : (e.recordTrustTransition trusted).restored
      = { e with
        trusted := trusted ++ (e.trusted.filter (· ∉ trusted) ++ e.pendingTrustPurge)
        pendingTrustPurge := e.trusted.filter (· ∉ trusted) ++ e.pendingTrustPurge } := rfl
  rw [hrecord]
  intro n s hs
  obtain ⟨p, hp, -, hlookup⟩ := standing_eq_some_iff.mp hs
  apply h n s
  refine standing_eq_some_iff.mpr ⟨p, hp, ?_, hlookup⟩
  exact mem_append.mpr (hsound.trusted n (mem_of_lookup hp))

theorem Inv.step (h : e.Inv) (hvoted : e.restored.Voted) (event : Event)
    : Steps e event (e.step event) := by
  have hvoted' := hvoted.of_restored
  cases event with
  | trustChanged trusted =>
    have hchanged := hvoted.trustChanged h.sound trusted
    exact ⟨⟨h.sound.recordTrustTransition trusted, h.opened⟩,
      ⟨fun _ => trivial, fun _ => hchanged.of_restored⟩, fun _ => hchanged⟩
  | proposal a p => exact .proposal h hvoted
  | txSet a id txs => exact .txSet h hvoted
  | close a order txs => exact .close h hvoted
  | pruneUntrusted =>
    exact .of_voted (h.purgePendingTrust.foldl_dropNode _).purgePendingTrust
      hvoted'.pruneUntrustedProposals trivial rfl
  | pruneStale cutoff =>
    refine ⟨h.foldl_dropNode _, ⟨fun _ => trivial, fun _ => hvoted'.foldl_dropNode _⟩, fun _ => ?_⟩
    have hcomm : (e.step (.pruneStale cutoff)).restored
        = (e.proposals.keys.filter (e.isStale cutoff)).foldl Engine.dropNode e.restored := by
      show (foldl Engine.dropNode e _).restored = _
      rw [Engine.foldl_dropNode, Engine.foldl_dropNode]
      rfl
    rw [hcomm]
    exact hvoted.foldl_dropNode _
  | update a parms => exact .update h hvoted

theorem reflects_run_iff (events : List Event) (hinv : e.Inv) (h : e.restored.Voted)
    : (∀ k, (e.run (events.take k)).Reflects) ↔ e.FillsAlong events := by
  induction events generalizing e with
  | nil =>
    refine ⟨fun _ => trivial, fun _ k => ?_⟩
    rw [take_nil]
    exact (reflects_iff_voted hinv.sound).mpr h.of_restored
  | cons event events ih =>
    have hstep := hinv.step h event
    have hreflects := reflects_iff_voted hstep.inv.sound
    constructor
    . intro hall
      have hvoted := hreflects.mp (hall 1)
      refine ⟨hstep.voted.mp hvoted, ?_⟩
      apply (ih hstep.inv (hstep.restored hvoted)).mp
      exact fun k => hall (k + 1)
    intro hfills k
    cases k with
    | zero => exact (reflects_iff_voted hinv.sound).mpr h.of_restored
    | succ k =>
      have hvoted := hstep.voted.mpr hfills.1
      exact (ih hstep.inv (hstep.restored hvoted)).mpr hfills.2 k

section Round

variable (prevLedger : Option LedgerID) (validatorKey : Option NodeID)
  (trusted deadNodes : List NodeID) (replayed : AList fun _ : NodeID => Proposal)

theorem Inv.startRound : (startRound prevLedger validatorKey trusted deadNodes replayed).Inv := by
  have htrusted : ∀ n ∈ (Engine.startRound prevLedger validatorKey trusted deadNodes
      replayed).proposals, n ∈ _ := fun n hn => trusted_of_mem_pruneUntrustedProposals hn
  have hempty : (Engine.startRound prevLedger validatorKey trusted deadNodes replayed).disputeTracker
      = ∅ := disputeTracker_pruneUntrustedProposals rfl
  unfold Engine.startRound at htrusted hempty ⊢
  rw [pruneUntrustedProposals_eq] at htrusted hempty ⊢
  constructor
  . constructor
    case counted =>
      intro t d hd
      rw [hempty] at hd
      cases hd
    case tx =>
      intro t d hd
      rw [hempty] at hd
      cases hd
    case holder =>
      intro t d n v hd
      rw [hempty] at hd
      cases hd
    case trusted => exact fun n hn => .inl (htrusted n hn)
    case acquired =>
      intro id s hs
      cases hs
    case ours =>
      intro s hs
      cases hs
    case compared =>
      intro id hid
      cases hid
    case quiet => exact fun _ => ⟨rfl, hempty⟩
    case differ =>
      intro ours id s t hours
      cases hours
  . exact fun _ => rfl

theorem reflects_round_iff (events : List Event)
    : (∀ k, ((startRound prevLedger validatorKey trusted deadNodes replayed).run
          (events.take k)).Reflects)
        ↔ (startRound prevLedger validatorKey trusted deadNodes replayed).FillsAlong events := by
  apply reflects_run_iff
  . apply Inv.startRound
  apply Voted.of_disputeTracker_eq_empty
  exact disputeTracker_pruneUntrustedProposals rfl

end Round

end Engine

end

namespace Sample

def sum (bytes : List UInt8) : Hash256 :=
  (Vector.replicate 32 1).set 0 (bytes.foldl (fun h b => h * 31 + b) 7) size_pos

@[reducible]
def sha512Half : Sha512Half where
  sum := sum

attribute [local instance] sha512Half

def node (b : UInt8) : NodeID := Vector.replicate 20 b

-- the set of no transactions has the zero id and is always in the cache
def emptySet : TxSet where
  id := zero
  txs := []

def adaptor : Adaptor where
  verifyProposal := fun _ => true
  txSetCache := [emptySet]
  buildTxSet := fun blobs => some { id := if blobs = [] then zero else sum blobs.flatten, txs := blobs }
  mem_buildTxSet := by
    rintro blobs _ ⟨⟩ txID
    exact mem_map

def order : Order Held where
  visit := id
  perm := List.Perm.refl

def position (b : UInt8) (txSet : TxSetID) : Proposal where
  nodeID := node b
  position := 0
  txSet := txSet
  previousLedger := zero
  timestamp := 0

def start : Engine :=
  .startRound (some zero) none [node 1, node 2] []
    (singleton (node 2) (position 2 zero))

def theirs : TxSetID := sum [20]

def events : List Event :=
  [.proposal adaptor (position 1 theirs), .txSet adaptor theirs [[20]],
    .close adaptor order [[10]]]

/--
The empty set is out of the cache when our transaction is already disputed, so the second validator
has no vote on it.
-/
theorem replayed_position_unvoted
    : (start.run events).acquiredTxSets.lookup zero = some emptySet
      ∧ ((start.run events).disputeTracker.lookup (computeTxID [10])).map
          (fun d => (d.votes.lookup (node 1), d.votes.lookup (node 2))) = some (some false, none)
      ∧ ¬ (start.run events).Reflects := by
  have hacquired : (start.run events).acquiredTxSets.lookup zero = some emptySet := by
    decide +kernel
  have hvotes : ((start.run events).disputeTracker.lookup (computeTxID [10])).map
      (fun d => (d.votes.lookup (node 1), d.votes.lookup (node 2))) = some (some false, none) := by
    decide +kernel
  refine ⟨hacquired, hvotes, ?_⟩
  intro hreflects
  obtain ⟨d, hd, hpair⟩ := Option.map_eq_some_iff.mp hvotes
  have hvote := hreflects.voted (node 2) (position 2 zero) emptySet (by decide +kernel)
    (by decide +kernel) hacquired _ d hd
  rw [(Prod.mk.inj hpair).2] at hvote
  cases hvote

end Sample

end Disputes
