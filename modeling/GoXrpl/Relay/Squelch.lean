import GoXrpl.Relay.Lemmas.Slot

/-!
This module contains a slot together with what its peers have been told, over any sequence of
messages, disconnections and idle sweeps.
-/

open List Function

namespace Relay

variable {PeerID : Type} [DecidableEq PeerID]

inductive Event (PeerID : Type) where
  | message (peerID : PeerID) (choices : Choices PeerID)
  | disconnect (peerID : PeerID) (now : Time)
  | sweep (now : Time) (order : List PeerID)

def Event.now : Event PeerID → Time
  | .message _ choices => choices.now
  | .disconnect _ now => now
  | .sweep now _ => now

def Event.leaves : Event PeerID → Option PeerID
  | .disconnect peerID _ => some peerID
  | _ => none

/--
The slot and its connected peers. `told` is the end of the squelch that a peer was told last, `none`
when it was told to relay again or nothing. `forgotten` holds the peers that a sweep found squelched
and silent since they were told.
-/
structure Net (PeerID : Type) where
  slot : ValidatorSlot PeerID
  told : PeerID → Option Time
  forgotten : PeerID → Bool
  clock : Time

def tell (now : Time) (told : PeerID → Option Time) (calls : List (SquelchCall PeerID))
    : PeerID → Option Time :=
  calls.foldl (fun told call =>
    update told call.peerID (if call.squelch then some (now + call.duration) else none)) told

def isCalled (calls : List (SquelchCall PeerID)) (q : PeerID) : Bool :=
  calls.any fun call => call.peerID = q

def ValidatorSlot.silent (s : ValidatorSlot PeerID) (now : Time) (state : RelayPeerState)
    (id : PeerID) : Bool :=
  (s.peers.lookup id).any fun peer => peer.state = state ∧ now - peer.lastMessage > idled

variable {q : PeerID}

theorem tell_of_not_called (now : Time) (told : PeerID → Option Time) (h : ¬ Called calls q)
    : tell now told calls q = told q := by
  unfold tell
  induction calls generalizing told with
  | nil => rfl
  | cons call calls ih =>
    have hne : q ≠ call.peerID := fun heq => h ⟨call, mem_cons_self, heq.symm⟩
    rw [foldl_cons, ih, update_of_ne hne]
    rintro ⟨call', hmem, heq⟩
    exact h ⟨call', mem_cons_of_mem call hmem, heq⟩

theorem tell_of_called (h : Called calls q)
    (hvalue : ∀ call ∈ calls, call.peerID = q →
      (if call.squelch then some (now + call.duration) else none) = value)
    : tell now told calls q = value := by
  induction calls generalizing told with
  | nil => exact absurd h (not_called_nil q)
  | cons call calls ih =>
    unfold tell at ih ⊢
    rw [foldl_cons]
    by_cases hrest : Called calls q
    . exact ih hrest fun call' hmem => hvalue call' (mem_cons_of_mem call hmem)
    obtain ⟨call', hmem, heq⟩ := h
    have hcall : call' = call := by
      rcases mem_cons.mp hmem with rfl | hmem
      . rfl
      . exact absurd ⟨call', hmem, heq⟩ hrest
    subst hcall
    have hnot := tell_of_not_called now (update told call'.peerID
      (if call'.squelch then some (now + call'.duration) else none)) hrest
    unfold tell at hnot
    rw [hnot, ← heq, update_self]
    exact hvalue call' mem_cons_self heq

theorem isCalled_iff : isCalled calls q = true ↔ Called calls q := by
  unfold isCalled Called
  simp

namespace ValidatorSlot

variable {s s' : ValidatorSlot PeerID} {id : PeerID}

theorem Fate.phase_eq (h : Fate (s.peers.lookup q) called (s'.peers.lookup q)) (hcalled : ¬ called)
    (hphase : s.phase q = some (.squelched, expire))
    : s'.phase q = some (.squelched, expire) ∨ s'.peers.lookup q = none := by
  unfold phase at hphase ⊢
  generalize s.peers.lookup q = before at h hphase
  generalize s'.peers.lookup q = after at h ⊢
  cases h with
  | same silent => exact .inl hphase
  | gone told => exact .inr rfl
  | counting state_eq known told =>
    obtain ⟨peer, hpeer, heq⟩ := Option.map_eq_some_iff.mp hphase
    exact absurd (told.mpr ⟨peer, hpeer, (Prod.mk.inj heq).1⟩) hcalled

theorem Fate.phase_of_squelched (h : Fate (s.peers.lookup q) called (s'.peers.lookup q))
    (hphase : s'.phase q = some (.squelched, expire))
    : s.phase q = some (.squelched, expire) := by
  unfold phase at hphase ⊢
  generalize s.peers.lookup q = before at h ⊢
  generalize s'.peers.lookup q = after at h hphase
  cases h with
  | same silent => exact hphase
  | gone told => cases hphase
  | counting state_eq known told =>
    rw [Option.map_some, state_eq] at hphase
    cases hphase

theorem silent_iff {state : RelayPeerState}
    : s.silent now state id = true
      ↔ s.idle now id = true ∧ ∃ peer, s.peers.lookup id = some peer ∧ peer.state = state := by
  unfold silent idle
  cases s.peers.lookup id with
  | none => simp
  | some peer => simp [and_comm]

theorem deleteIdlePeers_eq (s : ValidatorSlot PeerID) (now : Time) (order : List PeerID)
    : (s.deleteIdlePeers now order).2 = (s.evictAll now (order.filter (s.idle now))).2
      ∧ (s.deleteIdlePeers now order).1.phase = (s.evictAll now (order.filter (s.idle now))).1.phase
      ∧ (s.deleteIdlePeers now order).1.considered
        ⊆ (s.evictAll now (order.filter (s.idle now))).1.considered := by
  unfold deleteIdlePeers
  dsimp only
  split
  . exact ⟨rfl, phase_initCounting, Finset.empty_subset _⟩
  . exact ⟨rfl, rfl, Finset.Subset.refl _⟩

theorem called_deleteIdlePeers (hq : s.silent now .squelched q = true)
    : Called (s.deleteIdlePeers now order).2 q
      ↔ (order.takeWhile (· ≠ q)).any (s.silent now .selected) = true := by
  obtain ⟨hidle, hsquelched⟩ := silent_iff.mp hq
  have hwhile : (fun id => !s.idle now id || decide (id ≠ q)) = fun id => decide (id ≠ q) := by
    funext id
    by_cases heq : id = q
    . rw [heq, hidle]
      rfl
    . simp [heq]
  rw [(s.deleteIdlePeers_eq now order).1, called_evictAll hsquelched, takeWhile_filter, hwhile,
    any_eq_true]
  simp only [mem_filter, silent_iff, and_assoc]

theorem Evicted.called (h : s.Evicted ids r) (hid : id ∈ ids) (hpeer : s.peers.lookup id = some peer)
    (hstate : peer.state = .selected) (hq : Squelched (s.peers.lookup q)) (hnot : q ∉ ids)
    : Called r.2 q := by
  have hfate := h.fate q
  have hreleased := h.released id hid peer hpeer hstate q
  have hgone := (h.gone q).mp
  generalize r.1.peers.lookup q = after at hfate hreleased hgone
  cases hfate with
  | same silent => exact absurd hq hreleased
  | gone told =>
    rcases hgone rfl with hmem | hnone
    . exact absurd hmem hnot
    rw [hnone] at hq
    exact absurd hq not_squelched_none
  | counting state_eq known told => exact told.mpr hq

theorem Evicted.considers (h : s.Evicted ids r) (hconsiders : s.Considers) : r.1.Considers := by
  intro q hq expire hphase
  exact hconsiders q (h.considered hq) expire ((h.fate q).phase_of_squelched hphase)

end ValidatorSlot

namespace Net

def new (maxSelected : Int) (now : Time) : Net PeerID where
  slot := .new maxSelected now
  told := fun _ => none
  forgotten := fun _ => false
  clock := now

/--
A sweep finds `q` squelched and silent for longer than `idled`, and no silent selected peer before
`q` in its order.
-/
def forgets (n : Net PeerID) : Event PeerID → PeerID → Bool
  | .sweep now order, q => n.slot.silent now .squelched q
      && !(order.takeWhile (· ≠ q)).any (n.slot.silent now .selected)
  | _, _ => false

def step (n : Net PeerID) : Event PeerID → Net PeerID
  | .message peerID choices =>
    let (slot, calls, _) := n.slot.update peerID choices
    { slot
      told := tell choices.now n.told calls
      forgotten := fun q => n.forgotten q && !isCalled calls q
      clock := choices.now }
  | .disconnect peerID now =>
    let (slot, calls) := n.slot.deletePeer peerID now true
    { slot
      told := update (tell now n.told calls) peerID none
      forgotten := update n.forgotten peerID false
      clock := now }
  | .sweep now order =>
    let (slot, calls) := n.slot.deleteIdlePeers now order
    { slot
      told := tell now n.told calls
      forgotten := fun q => n.forgotten q || n.forgets (.sweep now order) q
      clock := now }

def Allows (n : Net PeerID) (event : Event PeerID) : Prop :=
  n.clock ≤ event.now ∧ match event with
    | .message _ choices => ∀ l, (choices.shuffle l).Perm l
    | .disconnect _ _ => True
    | .sweep _ order => order.Perm n.slot.peers.keys

inductive Reachable : Net PeerID → Prop where
  | new (maxSelected : Int) (now : Time) : Reachable (new maxSelected now)
  | step {n : Net PeerID} {event : Event PeerID} (before : Reachable n) (allows : n.Allows event)
      : Reachable (n.step event)

def Stops (n : Net PeerID) : Event PeerID → Prop
  | .message _ _ => False
  | .disconnect peerID _ => ∃ peer, n.slot.peers.lookup peerID = some peer ∧ peer.state = .selected
  | .sweep now _ => ∃ peerID peer, n.slot.peers.lookup peerID = some peer ∧ peer.state = .selected
    ∧ now - peer.lastMessage > idled

def Outstanding (n : Net PeerID) (q : PeerID) : Prop :=
  ∃ expire, n.told q = some expire ∧ n.clock < expire

-- The squelch announced to `q` outlasts the event, and `q` stays connected.
def Running (n : Net PeerID) (event : Event PeerID) (q : PeerID) : Prop :=
  event.leaves ≠ some q ∧ ∃ expire, n.told q = some expire ∧ event.now < expire

structure Inv (n : Net PeerID) : Prop where
  tracked : ∀ q expire, n.told q = some expire → n.clock < expire →
    n.forgotten q = true ∨ n.slot.phase q = some (.squelched, expire)
  lost : ∀ q, n.forgotten q = true → ∀ expire, n.slot.phase q ≠ some (.squelched, expire)
  considers : n.slot.Considers

open ValidatorSlot

variable {n : Net PeerID}

theorem inv_new (maxSelected : Int) (now : Time) : (Net.new maxSelected now : Net PeerID).Inv where
  tracked := fun _ _ htold => by cases htold
  lost := fun _ hforgotten => by cases hforgotten
  considers := fun _ hq => by cases hq

theorem Inv.message (h : n.Inv) (hallows : n.Allows (.message peerID choices))
    : (n.step (.message peerID choices)).Inv := by
  obtain ⟨hclock, hshuffle⟩ := hallows
  have hheard := update_heard hshuffle h.considers peerID
  unfold step
  refine ⟨?_, ?_, hheard.considers⟩
  . intro q expire htold hnow
    dsimp only at htold hnow ⊢
    by_cases hcalled : Called (n.slot.update peerID choices).2.1 q
    . right
      have hcalled' := hcalled
      obtain ⟨call, hmem, rfl⟩ := hcalled'
      have hphase := (hheard.told call hmem).2
      have hvalue : tell choices.now n.told (n.slot.update peerID choices).2.1 call.peerID
          = some (choices.now + call.duration) := by
        apply tell_of_called hcalled
        intro call' hmem' heq
        obtain ⟨hsquelch, hphase'⟩ := hheard.told call' hmem'
        rw [heq, hphase] at hphase'
        rw [hsquelch, if_pos rfl]
        exact congrArg some (Prod.mk.inj (Option.some.inj hphase')).2.symm
      rw [hvalue] at htold
      cases htold
      exact hphase
    rw [tell_of_not_called _ _ hcalled] at htold
    rcases h.tracked q expire htold (Int.lt_of_le_of_lt hclock hnow) with hforgotten | hphase
    . left
      rw [hforgotten, Bool.true_and, Bool.not_eq_true', ← Bool.not_eq_true, isCalled_iff]
      exact hcalled
    . exact .inr (hheard.keeps q hcalled expire (Int.le_of_lt hnow) hphase)
  intro q hforgotten expire hphase
  rw [Bool.and_eq_true, Bool.not_eq_true', ← Bool.not_eq_true, isCalled_iff] at hforgotten
  exact h.lost q hforgotten.1 expire (hheard.fresh q hforgotten.2 expire hphase)

theorem tell_of_evicted {s : ValidatorSlot PeerID} {ids : List PeerID}
    {told : PeerID → Option Time} (h : s.Evicted ids r) (htold : tell now told r.2 q = some expire)
    : ¬ Called r.2 q ∧ told q = some expire := by
  by_cases hcalled : Called r.2 q
  . have hnone : tell now told r.2 q = none := by
      apply tell_of_called hcalled
      intro call hmem _
      rw [h.unsquelch call hmem]
      rfl
    rw [hnone] at htold
    cases htold
  rw [tell_of_not_called _ _ hcalled] at htold
  exact ⟨hcalled, htold⟩

theorem Inv.disconnect {peerID : PeerID} (h : n.Inv) (hallows : n.Allows (.disconnect peerID now))
    : (n.step (.disconnect peerID now)).Inv := by
  obtain ⟨hclock, _⟩ := hallows
  have hevicted := n.slot.deletePeer_evicted now peerID
  unfold step
  refine ⟨?_, ?_, hevicted.considers h.considers⟩
  . intro q expire htold hnow
    dsimp only at htold hnow ⊢
    by_cases hq : q = peerID
    . rw [hq, update_self] at htold
      cases htold
    rw [update_of_ne hq] at htold
    rw [update_of_ne hq]
    obtain ⟨hcalled, htold⟩ := tell_of_evicted hevicted htold
    rcases h.tracked q expire htold (Int.lt_of_le_of_lt hclock hnow) with hforgotten | hphase
    . exact .inl hforgotten
    right
    rcases (hevicted.fate q).phase_eq hcalled hphase with hphase' | hnone
    . exact hphase'
    rw [hevicted.gone, mem_singleton, or_iff_right hq] at hnone
    unfold phase at hphase
    rw [hnone] at hphase
    cases hphase
  intro q hforgotten expire hphase
  dsimp only at hforgotten hphase
  by_cases hq : q = peerID
  . rw [hq, update_self] at hforgotten
    cases hforgotten
  rw [update_of_ne hq] at hforgotten
  exact h.lost q hforgotten expire ((hevicted.fate q).phase_of_squelched hphase)

theorem forgets_sweep
    : n.forgets (.sweep now order) q = (n.slot.silent now .squelched q
        && !(order.takeWhile (· ≠ q)).any (n.slot.silent now .selected)) := rfl

theorem mem_of_known {s : ValidatorSlot PeerID} {order : List PeerID} {state : RelayPeerState}
    (h : order.Perm s.peers.keys)
    (hpeer : ∃ peer, s.peers.lookup q = some peer ∧ peer.state = state) : q ∈ order := by
  obtain ⟨peer, hpeer, _⟩ := hpeer
  refine h.mem_iff.mpr (AList.mem_keys.mp (AList.lookup_isSome.mp ?_))
  rw [hpeer]
  rfl

theorem Inv.sweep {order : List PeerID} (h : n.Inv) (hallows : n.Allows (.sweep now order))
    : (n.step (.sweep now order)).Inv := by
  obtain ⟨hclock, horder⟩ := hallows
  have hevicted := n.slot.evictAll_evicted now (order.filter (n.slot.idle now))
  obtain ⟨hcalls, hphases, hconsidered⟩ := n.slot.deleteIdlePeers_eq now order
  unfold step
  refine ⟨?_, ?_, ?_⟩
  . intro q expire htold hnow
    dsimp only at htold hnow ⊢
    rw [hcalls] at htold
    obtain ⟨hcalled, htold⟩ := tell_of_evicted hevicted htold
    rcases h.tracked q expire htold (Int.lt_of_le_of_lt hclock hnow) with hforgotten | hphase
    . left
      rw [hforgotten, Bool.true_or]
    rw [hphases]
    rcases (hevicted.fate q).phase_eq hcalled hphase with hphase' | hgone
    . exact .inr hphase'
    left
    have hsquelched := squelched_iff_phase.mpr ⟨expire, hphase⟩
    have hmem : q ∈ order.filter (n.slot.idle now) := by
      refine ((hevicted.gone q).mp hgone).resolve_right fun hnone => ?_
      rw [hnone] at hsquelched
      exact not_squelched_none hsquelched
    have hsilent := silent_iff.mpr ⟨(mem_filter.mp hmem).2, hsquelched⟩
    rw [← hcalls, called_deleteIdlePeers hsilent, Bool.not_eq_true] at hcalled
    rw [forgets_sweep, hsilent, hcalled, Bool.not_false, Bool.and_true, Bool.or_true]
  . intro q hforgotten expire hphase
    rw [hphases] at hphase
    rcases Bool.or_eq_true_iff.mp hforgotten with hforgotten | hforgets
    . exact h.lost q hforgotten expire ((hevicted.fate q).phase_of_squelched hphase)
    obtain ⟨hidle, hsquelched⟩ := silent_iff.mp (Bool.and_eq_true_iff.mp hforgets).1
    have hmem := mem_filter.mpr ⟨mem_of_known horder hsquelched, hidle⟩
    unfold phase at hphase
    rw [(hevicted.gone q).mpr (.inl hmem)] at hphase
    cases hphase
  intro q hq expire hphase
  rw [hphases] at hphase
  exact hevicted.considers h.considers q (hconsidered hq) expire hphase

theorem Reachable.inv (h : n.Reachable) : n.Inv := by
  induction h with
  | new maxSelected now => exact inv_new maxSelected now
  | @step n event before allows ih =>
    cases event with
    | message peerID choices => exact ih.message allows
    | disconnect peerID now => exact ih.disconnect allows
    | sweep now order => exact ih.sweep allows

def calls (n : Net PeerID) : Event PeerID → List (SquelchCall PeerID)
  | .message peerID choices => (n.slot.update peerID choices).2.1
  | .disconnect peerID now => (n.slot.deletePeer peerID now true).2
  | .sweep now order => (n.slot.deleteIdlePeers now order).2

theorem told_step (n : Net PeerID) (hne : event.leaves ≠ some q)
    : (n.step event).told q = tell event.now n.told (n.calls event) q := by
  cases event with
  | message peerID choices => rfl
  | disconnect peerID now => exact update_of_ne (fun heq => hne (congrArg some heq.symm)) _ _
  | sweep now order => rfl

theorem calls_sweep (n : Net PeerID) (now : Time) (order : List PeerID)
    : n.calls (.sweep now order) = (n.slot.evictAll now (order.filter (n.slot.idle now))).2 :=
  (n.slot.deleteIdlePeers_eq now order).1

theorem Stops.evicted (hstops : n.Stops event)
    : ∃ ids r, n.slot.Evicted ids r ∧ n.calls event = r.2 := by
  cases event with
  | message peerID choices => exact absurd hstops id
  | disconnect peerID now => exact ⟨_, _, n.slot.deletePeer_evicted now peerID, rfl⟩
  | sweep now order => exact ⟨_, _, n.slot.evictAll_evicted now _, n.calls_sweep now order⟩

theorem outstanding_step (hstops : n.Stops event)
    : (n.step event).Outstanding q ↔ n.Running event q ∧ ¬ Called (n.calls event) q := by
  obtain ⟨ids, r, hevicted, hcalls⟩ := hstops.evicted
  have hclock : (n.step event).clock = event.now := by
    cases event <;> rfl
  unfold Outstanding Running
  rw [hclock]
  by_cases hleaves : event.leaves = some q
  . have hnone : (n.step event).told q = none := by
      cases event <;> cases hleaves
      exact update_self _ _ _
    simp [hnone, hleaves]
  rw [told_step n hleaves, hcalls]
  constructor
  . rintro ⟨expire, htold, hnow⟩
    obtain ⟨hcalled, htold⟩ := tell_of_evicted hevicted htold
    exact ⟨⟨hleaves, expire, htold, hnow⟩, hcalled⟩
  rintro ⟨⟨_, expire, htold, hnow⟩, hcalled⟩
  exact ⟨expire, (tell_of_not_called _ n.told hcalled).trans htold, hnow⟩

theorem Inv.called_iff (h : n.Inv) (hallows : n.Allows event) (hstops : n.Stops event)
    (hrunning : n.Running event q)
    : Called (n.calls event) q ↔ n.forgotten q = false ∧ n.forgets event q = false := by
  obtain ⟨hne, expire, htold, hnow⟩ := hrunning
  have hsquelched : n.forgotten q = false ↔ Squelched (n.slot.peers.lookup q) := by
    rw [squelched_iff_phase, ← Bool.not_eq_true]
    constructor
    . intro hforgotten
      have htracked := h.tracked q expire htold (Int.lt_of_le_of_lt hallows.1 hnow)
      exact ⟨expire, htracked.resolve_left hforgotten⟩
    rintro ⟨expire', hphase⟩ hforgotten
    exact h.lost q hforgotten expire' hphase
  rw [hsquelched]
  cases event with
  | message peerID choices => exact absurd hstops id
  | disconnect peerID now =>
    have hevicted := n.slot.deletePeer_evicted now peerID
    obtain ⟨peer, hpeer, hstate⟩ := hstops
    refine ⟨fun hcalled => ⟨(hevicted.fate q).squelched_of_called hcalled, rfl⟩, ?_⟩
    rintro ⟨hq, _⟩
    refine hevicted.called mem_cons_self hpeer hstate hq fun hmem => hne ?_
    exact congrArg some (mem_singleton.mp hmem).symm
  | sweep now order =>
    have hevicted := n.slot.evictAll_evicted now (order.filter (n.slot.idle now))
    by_cases hsilent : n.slot.silent now .squelched q = true
    . have hq : Squelched (n.slot.peers.lookup q) := (silent_iff.mp hsilent).2
      unfold calls
      rw [called_deleteIdlePeers hsilent, forgets_sweep, hsilent, and_iff_right hq, Bool.true_and,
        Bool.not_eq_false']
    rw [calls_sweep]
    refine ⟨fun hcalled => ⟨(hevicted.fate q).squelched_of_called hcalled, ?_⟩, ?_⟩
    . rw [forgets_sweep, Bool.eq_false_iff.mpr hsilent, Bool.false_and]
    rintro ⟨hq, _⟩
    obtain ⟨peerID, peer, hpeer, hstate, hidle⟩ := hstops
    have hmem : peerID ∈ order.filter (n.slot.idle now) := by
      refine mem_filter.mpr ⟨mem_of_known hallows.2 ⟨peer, hpeer, hstate⟩, ?_⟩
      unfold idle
      rw [hpeer]
      exact decide_eq_true hidle
    refine hevicted.called hmem hpeer hstate hq fun hmem => hsilent ?_
    exact silent_iff.mpr ⟨(mem_filter.mp hmem).2, hq⟩

/--
When the slot stops having selected peers, every connected peer with a running squelch has been told
to relay again, exactly when no sweep found such a peer silent: neither an earlier one nor this event.
-/
theorem released_iff (hreachable : n.Reachable) (hallows : n.Allows event) (hstops : n.Stops event)
    : (∀ q, ¬ (n.step event).Outstanding q)
      ↔ ∀ q, n.Running event q → n.forgotten q = false ∧ n.forgets event q = false := by
  refine forall_congr' fun q => ?_
  rw [outstanding_step hstops, not_and, not_not]
  exact forall_congr' (hreachable.inv.called_iff hallows hstops)

end Net

namespace Sample

inductive Act where
  | message (peerID seconds : Nat)
  | disconnect (peerID seconds : Nat)
  | sweep (seconds : Nat)

def Act.event (n : Net Nat) : Act → Event Nat
  | .message peerID seconds => .message peerID {
      now := seconds * second
      sinceSelected := seconds * second
      sinceMessage := fun _ => seconds * second
      shuffle := fun l => l
      intN := fun _ => 0 }
  | .disconnect peerID seconds => .disconnect peerID (seconds * second)
  | .sweep seconds => .sweep (seconds * second) n.slot.peers.keys

def run (n : Net Nat) : List Act → Net Nat
  | [] => n
  | act :: acts => run (n.step (act.event n)) acts

def forward (n : Net Nat) : List Act → Bool
  | [] => true
  | act :: acts => n.clock ≤ (act.event n).now && forward (n.step (act.event n)) acts

theorem allows_event {n : Net Nat} {act : Act} (h : n.clock ≤ (act.event n).now)
    : n.Allows (act.event n) := by
  refine ⟨h, ?_⟩
  cases act with
  | message peerID seconds => exact fun l => List.Perm.refl l
  | disconnect peerID seconds => exact True.intro
  | sweep seconds => exact List.Perm.refl _

theorem reachable_run {n : Net Nat} {acts : List Act} (h : n.Reachable) (hforward : forward n acts = true)
    : (run n acts).Reachable := by
  induction acts generalizing n with
  | nil => exact h
  | cons act acts ih =>
    unfold forward at hforward
    rw [Bool.and_eq_true, decide_eq_true_eq] at hforward
    exact ih (.step h (allows_event hforward.1)) hforward.2

-- Six peers relay a message each. Five of them go on until they are selected, and the sixth is
-- squelched for 300 seconds. The sweep after 10 seconds evicts it, since it is silent.
def swept : Net Nat :=
  run (Net.new 5 0) ((range 6).map (.message · 0)
    ++ (range 5).flatMap (fun peerID => replicate 21 (.message peerID 0))
    ++ (range 5).map (.message · 9)
    ++ [.sweep 10])

theorem reachable_swept : swept.Reachable := by
  apply reachable_run (.new 5 0)
  decide +kernel

def departure : Event Nat := .disconnect 0 (11 * second)

theorem stops_swept : swept.Stops departure := by
  have hphase : swept.slot.phase 0 = some (.selected, 0) := by
    decide +kernel
  obtain ⟨peer, hpeer, heq⟩ := Option.map_eq_some_iff.mp hphase
  exact ⟨peer, hpeer, (Prod.mk.inj heq).1⟩

theorem allows_swept : swept.Allows departure :=
  ⟨by decide +kernel, True.intro⟩

theorem outstanding_swept
    : swept.Reachable ∧ swept.Allows departure ∧ swept.Stops departure
      ∧ (swept.step departure).Outstanding 5 := by
  refine ⟨reachable_swept, allows_swept, stops_swept, 300 * second, ?_, ?_⟩
  . decide +kernel
  . decide +kernel

theorem released_swept
    : swept.Reachable ∧ swept.Allows departure ∧ swept.Stops departure ∧ swept.forgotten 5 = true
      ∧ ((∀ q, ¬ (swept.step departure).Outstanding q)
        ↔ ∀ q, swept.Running departure q →
          swept.forgotten q = false ∧ swept.forgets departure q = false) :=
  ⟨reachable_swept, allows_swept, stops_swept, by decide +kernel,
    Net.released_iff reachable_swept allows_swept stops_swept⟩

end Sample

end Relay
