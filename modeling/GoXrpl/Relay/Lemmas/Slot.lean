import GoXrpl.Relay.Impl.Slot

open AList Function Assoc

namespace Relay

variable {PeerID : Type}

def Squelched (peer : Option RelayPeerInfo) : Prop :=
  ∃ info, peer = some info ∧ info.state = .squelched

theorem not_squelched_none : ¬ Squelched none := by
  rintro ⟨_, hnone, _⟩
  cases hnone

theorem squelched_some : Squelched (some info) ↔ info.state = .squelched := by
  constructor
  . rintro ⟨_, ⟨⟩, hstate⟩
    exact hstate
  intro hstate
  exact ⟨info, rfl, hstate⟩

def Called (calls : List (SquelchCall PeerID)) (q : PeerID) : Prop :=
  ∃ call ∈ calls, call.peerID = q

theorem not_called_nil (q : PeerID) : ¬ Called [] q := by
  rintro ⟨_, hmem, _⟩
  cases hmem

theorem called_append : Called (calls ++ calls') q ↔ Called calls q ∨ Called calls' q := by
  constructor
  . rintro ⟨call, hmem, hq⟩
    rcases List.mem_append.mp hmem with hmem | hmem
    . exact .inl ⟨call, hmem, hq⟩
    . exact .inr ⟨call, hmem, hq⟩
  rintro (⟨call, hmem, hq⟩ | ⟨call, hmem, hq⟩)
  . exact ⟨call, List.mem_append_left _ hmem, hq⟩
  . exact ⟨call, List.mem_append_right _ hmem, hq⟩

variable [DecidableEq PeerID]

namespace ValidatorSlot

variable {s : ValidatorSlot PeerID} {id q : PeerID}

theorem lookup_initCounting (q : PeerID)
    : s.initCounting.peers.lookup q = (s.peers.lookup q).map fun peer => { peer with count := 0 } :=
  lookup_mapValues _ _ _

inductive Fate (before : Option RelayPeerInfo) (called : Prop) : Option RelayPeerInfo → Prop where
  | same (silent : ¬ called) : Fate before called before
  | gone (told : called → Squelched before) : Fate before called none
  | counting {peer : RelayPeerInfo} (state_eq : peer.state = .counting) (known : before ≠ none)
      (told : called ↔ Squelched before) : Fate before called (some peer)

theorem Fate.trans {called called' : Prop}
    (h : Fate before called middle) (h' : Fate middle called' after)
    : Fate before (called ∨ called') after := by
  cases h with
  | same silent =>
    cases h' with
    | same silent' => exact .same (not_or.mpr ⟨silent, silent'⟩)
    | gone told => exact .gone fun hcalled => told (hcalled.resolve_left silent)
    | counting state_eq known told =>
      refine .counting state_eq known ⟨fun hcalled => told.mp (hcalled.resolve_left silent), ?_⟩
      intro hsquelched
      exact .inr (told.mpr hsquelched)
  | gone told =>
    cases h' with
    | same silent' => exact .gone fun hcalled => told (hcalled.resolve_right silent')
    | gone told' =>
      exact .gone fun hcalled => told (hcalled.resolve_right fun hcalled' =>
        not_squelched_none (told' hcalled'))
    | counting state_eq known told' => exact absurd rfl known
  | @counting peer state_eq known told =>
    have hcounting : ¬ Squelched (some peer) := by
      rw [squelched_some, state_eq]
      exact nofun
    cases h' with
    | same silent' =>
      refine .counting state_eq known ⟨fun hcalled => told.mp (hcalled.resolve_right silent'), ?_⟩
      intro hsquelched
      exact .inl (told.mpr hsquelched)
    | gone told' =>
      exact .gone fun hcalled => told.mp (hcalled.resolve_right fun hcalled' =>
        hcounting (told' hcalled'))
    | counting state_eq' known' told' =>
      refine .counting state_eq' known ⟨?_, fun hsquelched => .inl (told.mpr hsquelched)⟩
      rintro (hcalled | hcalled')
      . exact told.mp hcalled
      . exact absurd (told'.mp hcalled') hcounting

theorem Fate.not_squelched (h : Fate before called after) (hbefore : ¬ Squelched before)
    : ¬ Squelched after := by
  cases h with
  | same silent => exact hbefore
  | gone told => exact not_squelched_none
  | counting state_eq known told =>
    rw [squelched_some, state_eq]
    exact nofun

theorem Fate.squelched_of_called (h : Fate before called after) (hcalled : called)
    : Squelched before := by
  cases h with
  | same silent => exact absurd hcalled silent
  | gone told => exact told hcalled
  | counting state_eq known told => exact told.mp hcalled

theorem lookup_releasePeers (skip : PeerID → Bool) (now : Time) (q : PeerID)
    : (s.releasePeers skip now).1.peers.lookup q = (s.peers.lookup q).map fun peer =>
        if skip q then peer else { peer with state := .counting, count := 0, expire := now } :=
  lookup_mapValues _ _ _

theorem called_releasePeers
    : Called (s.releasePeers skip now).2 q ↔ skip q = false ∧ Squelched (s.peers.lookup q) := by
  unfold releasePeers Called
  simp only [List.mem_filterMap]
  constructor
  . rintro ⟨call, ⟨⟨id, peer⟩, hmem, hcall⟩, hq⟩
    split at hcall
    . rename_i hif
      cases hcall
      cases hq
      refine ⟨by simpa using hif.1, ?_⟩
      rw [mem_entries_iff.mp hmem, squelched_some]
      exact hif.2
    . cases hcall
  rintro ⟨hskip, peer, hpeer, hstate⟩
  refine ⟨_, ⟨⟨q, peer⟩, mem_entries_iff.mpr hpeer, if_pos ⟨?_, hstate⟩⟩, rfl⟩
  simp [hskip]

omit [DecidableEq PeerID] in
theorem unsquelch_releasePeers (h : call ∈ (s.releasePeers skip now).2) : call.squelch = false := by
  unfold releasePeers at h
  simp only [List.mem_filterMap] at h
  obtain ⟨e, _, hcall⟩ := h
  split at hcall
  . cases hcall
    rfl
  . cases hcall

theorem peers_unconsider (id : PeerID) (peer : RelayPeerInfo)
    : (s.unconsider id peer).peers = s.peers := by
  unfold unconsider
  split <;> rfl

theorem considered_unconsider (id : PeerID) (peer : RelayPeerInfo)
    : (s.unconsider id peer).considered ⊆ s.considered := by
  unfold unconsider
  split
  . exact Finset.erase_subset _ _
  . exact Finset.Subset.refl _

structure Evicted (s : ValidatorSlot PeerID) (ids : List PeerID)
    (r : ValidatorSlot PeerID × List (SquelchCall PeerID)) : Prop where
  fate : ∀ q, Fate (s.peers.lookup q) (Called r.2 q) (r.1.peers.lookup q)
  unsquelch : ∀ call ∈ r.2, call.squelch = false
  considered : r.1.considered ⊆ s.considered
  gone : ∀ q, r.1.peers.lookup q = none ↔ q ∈ ids ∨ s.peers.lookup q = none
  released : ∀ id ∈ ids, ∀ peer, s.peers.lookup id = some peer → peer.state = .selected →
    ∀ q, ¬ Squelched (r.1.peers.lookup q)

theorem lookup_erase_eq_none {peers : AList fun _ : PeerID => RelayPeerInfo}
    : (peers.erase id).lookup q = none ↔ q ∈ [id] ∨ peers.lookup q = none := by
  rw [List.mem_singleton]
  by_cases hq : q = id
  . subst hq
    rw [lookup_erase]
    simp
  rw [lookup_erase_ne hq]
  simp [hq]

theorem evicted_of_selected (now : Time) (hskip : ∀ q, q ≠ id → skip q = false)
    (hcalls : r.2 = (s.releasePeers skip now).2) (hconsidered : r.1.considered = ∅)
    (hpeers : r.1.peers = (s.releasePeers skip now).1.peers.erase id)
    : s.Evicted [id] r := by
  have hfate : ∀ q, Fate (s.peers.lookup q) (Called r.2 q) (r.1.peers.lookup q) := by
    intro q
    rw [hcalls, hpeers]
    by_cases hq : q = id
    . subst hq
      rw [lookup_erase]
      exact .gone fun hcalled => (called_releasePeers.mp hcalled).2
    rw [lookup_erase_ne hq, lookup_releasePeers, hskip q hq]
    cases hlookup : s.peers.lookup q with
    | none =>
      refine .same fun hcalled => not_squelched_none ?_
      rw [← hlookup]
      exact (called_releasePeers.mp hcalled).2
    | some info =>
      rw [Option.map_some]
      refine .counting rfl nofun ?_
      rw [called_releasePeers, hlookup]
      exact and_iff_right (hskip q hq)
  refine ⟨hfate, ?_, by rw [hconsidered]; exact Finset.empty_subset _, ?_, ?_⟩
  . intro call hcall
    rw [hcalls] at hcall
    exact unsquelch_releasePeers hcall
  . intro q
    rw [hpeers, lookup_erase_eq_none, lookup_releasePeers, Option.map_eq_none_iff]
  intro id' hid' peer' hpeer' hstate' q
  rw [hpeers]
  by_cases hq : q = id
  . subst hq
    rw [lookup_erase]
    exact not_squelched_none
  rw [lookup_erase_ne hq, lookup_releasePeers, hskip q hq]
  cases s.peers.lookup q with
  | none => exact not_squelched_none
  | some info =>
    rw [Option.map_some, squelched_some]
    exact nofun

theorem evicted_of_not_selected (hpeer : s.peers.lookup id = some peer)
    (hstate : peer.state ≠ .selected)
    (hcalls : r.2 = []) (hconsidered : r.1.considered ⊆ s.considered)
    (hpeers : r.1.peers = s.peers.erase id)
    : s.Evicted [id] r := by
  refine ⟨?_, ?_, hconsidered, ?_, ?_⟩
  . intro q
    rw [hcalls, hpeers]
    by_cases hq : q = id
    . subst hq
      rw [lookup_erase]
      exact .gone fun hcalled => absurd hcalled (not_called_nil q)
    rw [lookup_erase_ne hq]
    exact .same (not_called_nil q)
  . intro call hcall
    rw [hcalls] at hcall
    cases hcall
  . intro q
    rw [hpeers, lookup_erase_eq_none]
  intro id' hid' peer' hpeer' hstate'
  rw [List.mem_singleton.mp hid', hpeer] at hpeer'
  cases hpeer'
  exact absurd hstate' hstate

theorem evicted_of_absent (hpeer : s.peers.lookup id = none) : s.Evicted [id] (s, []) := by
  refine ⟨fun q => .same (not_called_nil q), fun call hcall => (by cases hcall),
    Finset.Subset.refl _, ?_, ?_⟩
  . intro q
    refine (or_iff_right_of_imp fun hq => ?_).symm
    rw [List.mem_singleton.mp hq]
    exact hpeer
  intro id' hid' peer' hpeer'
  rw [List.mem_singleton.mp hid', hpeer] at hpeer'
  cases hpeer'

theorem evict_evicted (s : ValidatorSlot PeerID) (now : Time) (id : PeerID)
    : s.Evicted [id] (s.evict now id) := by
  unfold evict
  cases hpeer : s.peers.lookup id with
  | none => exact evicted_of_absent hpeer
  | some peer =>
    by_cases hstate : peer.state = .selected
    . simp only [hstate, if_true]
      exact evicted_of_selected now (fun q hq => decide_eq_false hq) rfl rfl rfl
    simp only [hstate, if_false]
    refine evicted_of_not_selected hpeer hstate rfl (considered_unconsider id peer) ?_
    rw [peers_unconsider]

theorem lookup_evict (hid : ∀ peer, s.peers.lookup id = some peer → peer.state ≠ .selected) (hq : q ≠ id)
    : (s.evict now id).1.peers.lookup q = s.peers.lookup q := by
  unfold evict
  cases hpeer : s.peers.lookup id with
  | none => rfl
  | some peer =>
    have hstate := hid peer hpeer
    simp only [hstate, if_false, peers_unconsider]
    exact lookup_erase_ne hq

theorem evictAll_evicted (s : ValidatorSlot PeerID) (now : Time) (ids : List PeerID)
    : s.Evicted ids (s.evictAll now ids) := by
  induction ids generalizing s with
  | nil =>
    exact ⟨fun q => .same (not_called_nil q), fun call hcall => (by cases hcall),
      Finset.Subset.refl _, fun q => (by simp [evictAll]), fun id hid => (by cases hid)⟩
  | cons id ids ih =>
    have hfirst := s.evict_evicted now id
    have hrest := ih (s.evict now id).1
    unfold evictAll
    refine ⟨?_, ?_, ?_, ?_, ?_⟩
    . intro q
      rw [called_append]
      exact (hfirst.fate q).trans (hrest.fate q)
    . intro call hcall
      rcases List.mem_append.mp hcall with hcall | hcall
      . exact hfirst.unsquelch call hcall
      . exact hrest.unsquelch call hcall
    . exact Finset.Subset.trans hrest.considered hfirst.considered
    . intro q
      rw [hrest.gone, hfirst.gone, ← or_assoc, or_comm (a := q ∈ ids), ← List.mem_append]
      rfl
    intro id' hid' peer hpeer hstate q
    -- The first selected peer that leaves releases all others.
    by_cases hselected : ∃ first, s.peers.lookup id = some first ∧ first.state = .selected
    . obtain ⟨first, hfirst', hfirstState⟩ := hselected
      exact (hrest.fate q).not_squelched
        (hfirst.released id List.mem_cons_self first hfirst' hfirstState q)
    have hnot : ∀ first, s.peers.lookup id = some first → first.state ≠ .selected :=
      fun first hfirst' hfirstState => hselected ⟨first, hfirst', hfirstState⟩
    have hne : id' ≠ id := by
      rintro rfl
      exact hnot peer hpeer hstate
    refine hrest.released id' ((List.mem_cons.mp hid').resolve_left hne) peer ?_ hstate q
    rw [lookup_evict hnot hne]
    exact hpeer

theorem called_evict (hq : Squelched (s.peers.lookup q))
    : Called (s.evict now id).2 q ↔ q ≠ id ∧ ∃ peer, s.peers.lookup id = some peer ∧ peer.state = .selected := by
  unfold evict
  cases hpeer : s.peers.lookup id with
  | none => simp [not_called_nil]
  | some peer =>
    by_cases hstate : peer.state = .selected
    . simp [hstate, called_releasePeers, hq]
    . simp [hstate, not_called_nil]

-- Only the selected peers that leave before it speak for a squelched peer.
theorem called_evictAll (hq : Squelched (s.peers.lookup q))
    : Called (s.evictAll now ids).2 q ↔ ∃ id ∈ ids.takeWhile (· ≠ q), ∃ peer,
        s.peers.lookup id = some peer ∧ peer.state = .selected := by
  induction ids generalizing s with
  | nil => simp [evictAll, not_called_nil]
  | cons id ids ih =>
    unfold evictAll
    rw [called_append, called_evict hq]
    by_cases heq : id = q
    . subst heq
      have hgone : (s.evict now id).1.peers.lookup id = none :=
        ((s.evict_evicted now id).gone id).mpr (.inl List.mem_cons_self)
      have hrest : ¬ Called ((s.evict now id).1.evictAll now ids).2 id := by
        intro hcalled
        have hsquelched := ((evictAll_evicted _ now ids).fate id).squelched_of_called hcalled
        rw [hgone] at hsquelched
        exact not_squelched_none hsquelched
      simp [hrest]
    have hpos : decide (id ≠ q) = true := decide_eq_true heq
    simp only [List.takeWhile_cons, hpos, if_true, List.exists_mem_cons_iff]
    by_cases hselected : ∃ peer, s.peers.lookup id = some peer ∧ peer.state = .selected
    . exact iff_of_true (.inl ⟨Ne.symm heq, hselected⟩) (.inl hselected)
    have hid : ∀ peer, s.peers.lookup id = some peer → peer.state ≠ .selected :=
      fun peer hpeer hstate => hselected ⟨peer, hpeer, hstate⟩
    rw [or_iff_right fun h => hselected h.2, or_iff_right hselected, ih]
    . refine exists_congr fun id' => and_congr_right fun _ => ?_
      by_cases hid' : id' = id
      . subst hid'
        rw [((s.evict_evicted now id').gone id').mpr (.inl List.mem_cons_self)]
        exact iff_of_false nofun hselected
      . rw [lookup_evict hid hid']
    rw [lookup_evict hid (Ne.symm heq)]
    exact hq

theorem deletePeer_evicted (s : ValidatorSlot PeerID) (now : Time) (id : PeerID)
    : s.Evicted [id] (s.deletePeer id now true) := by
  unfold deletePeer
  cases hpeer : s.peers.lookup id with
  | none => exact evicted_of_absent hpeer
  | some peer =>
    by_cases hstate : peer.state = .selected
    . simp only [hstate, if_true]
      exact evicted_of_selected now (fun _ _ => rfl) rfl rfl rfl
    simp only [hstate, if_false]
    refine evicted_of_not_selected hpeer hstate rfl (considered_unconsider id peer) ?_
    rw [peers_unconsider]
    rfl

def phase (s : ValidatorSlot PeerID) (q : PeerID) : Option (RelayPeerState × Time) :=
  (s.peers.lookup q).map fun peer => (peer.state, peer.expire)

theorem squelched_iff_phase
    : Squelched (s.peers.lookup q) ↔ ∃ expire, s.phase q = some (.squelched, expire) := by
  unfold phase Squelched
  constructor
  . rintro ⟨peer, hpeer, hstate⟩
    exact ⟨peer.expire, by rw [hpeer, ← hstate]; rfl⟩
  rintro ⟨expire, hphase⟩
  obtain ⟨peer, hpeer, heq⟩ := Option.map_eq_some_iff.mp hphase
  exact ⟨peer, hpeer, (Prod.mk.inj heq).1⟩

theorem phase_initCounting : s.initCounting.phase = s.phase := by
  funext q
  unfold phase
  rw [lookup_initCounting, Option.map_map]
  rfl

theorem phase_insert (s : ValidatorSlot PeerID) (id : PeerID) (peer : RelayPeerInfo)
    : (s.setPeer id peer).phase = Function.update s.phase id (some (peer.state, peer.expire)) := by
  funext q
  unfold phase setPeer
  by_cases hq : q = id
  . subst hq
    rw [lookup_insert, update_self]
    rfl
  . rw [lookup_insert_ne hq, update_of_ne hq]

theorem phase_setPeer (hpeer : s.peers.lookup id = some peer)
    (hstate : peer'.state = peer.state) (hexpire : peer'.expire = peer.expire)
    : (s.setPeer id peer').phase = s.phase := by
  rw [phase_insert, hstate, hexpire]
  apply update_eq_self_iff.mpr
  unfold phase
  rw [hpeer]
  rfl

variable {c : Choices PeerID}

def counted (s : ValidatorSlot PeerID) (id : PeerID) (peer : RelayPeerInfo) : ValidatorSlot PeerID :=
  { s with
    peers := s.peers.insert id { peer with count := peer.count + 1 }
    considered := if peer.count + 1 > minMessageThreshold then insert id s.considered else s.considered
    reachedThreshold := if peer.count + 1 = maxMessageThreshold + 1 then s.reachedThreshold + 1
      else s.reachedThreshold }

theorem countMessage_eq
    : s.countMessage id peer c
        = if c.sinceSelected - s.lastSelected > 2 * maxUnsquelchExpireDefault then
            ((s.counted id peer).initCounting, [])
          else if (s.counted id peer).reachedThreshold = s.maxSelectedPeers then
            (s.counted id peer).selectPeers c
          else
            (s.counted id peer, []) := rfl

def Considers (s : ValidatorSlot PeerID) : Prop :=
  ∀ q ∈ s.considered, ∀ expire, s.phase q ≠ some (.squelched, expire)

structure Heard (s : ValidatorSlot PeerID) (now : Time) (s' : ValidatorSlot PeerID)
    (calls : List (SquelchCall PeerID)) : Prop where
  told : ∀ call ∈ calls, call.squelch = true
    ∧ s'.phase call.peerID = some (.squelched, now + call.duration)
  keeps : ∀ q, ¬ Called calls q → ∀ expire, now ≤ expire → s.phase q = some (.squelched, expire) →
    s'.phase q = some (.squelched, expire)
  fresh : ∀ q, ¬ Called calls q → ∀ expire, s'.phase q = some (.squelched, expire) →
    s.phase q = some (.squelched, expire)
  considers : s'.Considers

theorem Heard.of_phase (hphase : s'.phase = s.phase) (hconsiders : s'.Considers)
    : s.Heard now s' [] where
  told := fun _ hcall => by cases hcall
  keeps := by
    intro q _ expire _ hsquelched
    rw [hphase]
    exact hsquelched
  fresh := by
    intro q _ expire hsquelched
    rw [← hphase]
    exact hsquelched
  considers := hconsiders

theorem Heard.congr {s₁ s' : ValidatorSlot PeerID}
    (h : s₁.Heard now s' calls) (hphase : s₁.phase = s.phase)
    : s.Heard now s' calls where
  told := h.told
  keeps := by
    rw [← hphase]
    exact h.keeps
  fresh := by
    rw [← hphase]
    exact h.fresh
  considers := h.considers

theorem considers_initCounting : s.initCounting.Considers := by
  intro q hq
  cases hq

theorem Heard.inserted (hstate : peer.state = .counting)
    (hended : ∀ expire, now ≤ expire → s.phase id ≠ some (.squelched, expire))
    : s.Heard now (s.setPeer id peer).initCounting [] := by
  refine ⟨fun _ hcall => (by cases hcall), ?_, ?_, considers_initCounting⟩
  . intro q _ expire hnow hsquelched
    rw [phase_initCounting, phase_insert, update_of_ne]
    . exact hsquelched
    rintro rfl
    exact hended expire hnow hsquelched
  intro q _ expire hsquelched
  rw [phase_initCounting, phase_insert] at hsquelched
  by_cases hq : q = id
  . rw [hq, update_self, hstate] at hsquelched
    cases hsquelched
  rw [update_of_ne hq] at hsquelched
  exact hsquelched

variable (hshuffle : ∀ l, (c.shuffle l).Perm l)

include hshuffle

theorem mem_considered_of_selected (hq : q ∈ (c.shuffle (s.candidates c)).take n)
    : q ∈ s.considered := by
  have hmem := (hshuffle _).mem_iff.mp (List.mem_of_mem_take hq)
  have hfilter := (List.mem_filter.mp hmem).2
  simp only [decide_eq_true_eq] at hfilter
  exact hfilter.1

theorem selectPeers_heard (hconsiders : s.Considers)
    : s.Heard c.now (s.selectPeers c).1 (s.selectPeers c).2 := by
  unfold selectPeers
  dsimp only
  split
  . exact .of_phase phase_initCounting considers_initCounting
  have hselected : ∀ q ∈ (c.shuffle (s.candidates c)).take s.maxSelectedPeers.toNat, ∀ expire,
      s.phase q ≠ some (.squelched, expire) :=
    fun q hq => hconsiders q (mem_considered_of_selected hshuffle hq)
  generalize (c.shuffle (s.candidates c)).take s.maxSelectedPeers.toNat = selected at hselected ⊢
  generalize (s.peers.keys.length : Int) - s.maxSelectedPeers = squelchable
  refine ⟨?_, ?_, ?_, ?_⟩
  . intro call hcall
    obtain ⟨⟨q, peer⟩, hmem, hcall⟩ := List.mem_filterMap.mp hcall
    split at hcall
    . rename_i hif
      cases hcall
      refine ⟨rfl, ?_⟩
      unfold phase
      rw [lookup_mapValues, mem_entries_iff.mp hmem]
      simp only [Option.map_some, selectPeer, if_neg hif.1, if_pos hif.2]
    . cases hcall
  . intro q _ expire _ hsquelched
    have hnot : q ∉ selected := fun hq => hselected q hq expire hsquelched
    unfold phase at hsquelched ⊢
    rw [lookup_mapValues]
    obtain ⟨peer, hpeer, heq⟩ := Option.map_eq_some_iff.mp hsquelched
    obtain ⟨hstate, hexpire⟩ := Prod.mk.inj heq
    rw [hpeer]
    simp [selectPeer, hnot, hstate, hexpire]
  . intro q hcalled expire hsquelched
    unfold phase at hsquelched ⊢
    rw [lookup_mapValues] at hsquelched
    cases hpeer : s.peers.lookup q with
    | none =>
      rw [hpeer] at hsquelched
      cases hsquelched
    | some peer =>
      rw [hpeer] at hsquelched
      by_cases hq : q ∈ selected
      . simp [selectPeer, hq] at hsquelched
      by_cases hstate : peer.state = .squelched
      . simp only [Option.map_some, selectPeer, if_neg hq, hstate, ne_eq, not_true_eq_false,
          if_false] at hsquelched
        simpa [hstate] using hsquelched
      exfalso
      apply hcalled
      exact ⟨_, List.mem_filterMap.mpr ⟨⟨q, peer⟩, mem_entries_iff.mpr hpeer,
        if_pos ⟨hq, hstate⟩⟩, rfl⟩
  intro q hq
  cases hq

theorem countMessage_heard (hconsiders : s.Considers) (hpeer : s.peers.lookup id = some peer)
    (hstate : peer.state ≠ .squelched)
    : s.Heard c.now (s.countMessage id peer c).1 (s.countMessage id peer c).2 := by
  have hphase : (s.counted id peer).phase = s.phase := phase_setPeer hpeer rfl rfl
  have hconsiders₁ : (s.counted id peer).Considers := by
    intro q hq expire hsquelched
    rw [hphase] at hsquelched
    have hmem : q = id ∨ q ∈ s.considered := by
      unfold counted at hq
      dsimp only at hq
      split at hq
      . exact Finset.mem_insert.mp hq
      . exact .inr hq
    rcases hmem with rfl | hmem
    . unfold phase at hsquelched
      rw [hpeer] at hsquelched
      exact hstate (Prod.mk.inj (Option.some.inj hsquelched)).1
    . exact hconsiders q hmem expire hsquelched
  rw [countMessage_eq]
  split
  . exact .of_phase (phase_initCounting.trans hphase) considers_initCounting
  split
  . exact (selectPeers_heard hshuffle hconsiders₁).congr hphase
  . exact .of_phase hphase hconsiders₁

theorem update_heard (hconsiders : s.Considers) (id : PeerID)
    : s.Heard c.now (s.update id c).1 (s.update id c).2.1 := by
  unfold update
  cases hpeer : s.peers.lookup id with
  | none =>
    apply Heard.inserted rfl
    intro expire _ hsquelched
    unfold phase at hsquelched
    rw [hpeer] at hsquelched
    cases hsquelched
  | some peer =>
    dsimp only
    split
    . rename_i hexpired
      apply Heard.inserted rfl
      intro expire hnow hsquelched
      unfold phase at hsquelched
      rw [hpeer] at hsquelched
      have hexpire := (Prod.mk.inj (Option.some.inj hsquelched)).2
      rw [← hexpire] at hnow
      exact absurd hexpired.2 (Int.not_lt.mpr hnow)
    have hphase : (s.setPeer id { peer with lastMessage := c.now }).phase = s.phase :=
      phase_setPeer hpeer rfl rfl
    have hconsiders₁ : (s.setPeer id { peer with lastMessage := c.now }).Considers := by
      intro q hq
      rw [hphase]
      exact hconsiders q hq
    split
    . exact .of_phase hphase hconsiders₁
    rename_i hcounts
    refine (countMessage_heard hshuffle hconsiders₁ ?_ ?_).congr hphase
    . exact lookup_insert _
    . exact (not_or.mp hcounts).2

end ValidatorSlot

end Relay
