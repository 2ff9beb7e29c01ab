import GoXrpl.Manifest.Lemmas.Cache

open Finset

namespace Manifest

namespace Cache

variable {c c' : Cache} {m : Manifest}

structure Consistent (c : Cache) : Prop where
  inverse : Assoc.Inverse c.getSigningKey c.signingToMaster.lookup
  disjoint : ∀ key, c.byMaster.lookup key ≠ none → c.signingToMaster.lookup key = none
  known : ∀ key ∈ c.untrustedMasters, c.byMaster.lookup key ≠ none
  bound : c.untrustedMasters.card ≤ c.maxUntrustedCount

def Advances (c c' : Cache) : Prop :=
  ∀ key m, c.byMaster.lookup key = some m →
    ∃ m', c'.byMaster.lookup key = some m' ∧ (m' = m ∨ m.sequence < m'.sequence)

theorem Advances.refl (c : Cache) : c.Advances c :=
  fun _ m h => ⟨m, h, .inl rfl⟩

theorem Advances.trans (h : c.Advances c') (h' : c'.Advances c'') : c.Advances c'' := by
  intro key m hm
  obtain ⟨m', hm', hle⟩ := h key m hm
  obtain ⟨m'', hm'', hle'⟩ := h' key m' hm'
  refine ⟨m'', hm'', ?_⟩
  rcases hle with rfl | hlt
  . exact hle'
  rcases hle' with rfl | hlt'
  . exact .inr hlt
  . exact .inr (UInt32.lt_trans hlt hlt')

theorem Advances.lookup_of_revoked (h : c.Advances c')
    (hm : c.byMaster.lookup key = some m) (hrevoked : m.revoked = true)
    : c'.byMaster.lookup key = some m := by
  obtain ⟨m', hm', rfl | hlt⟩ := h key m hm
  . exact hm'
  . exact absurd hlt (not_lt_of_revoked hrevoked _)

theorem lookup_byMaster_store (key : PublicKey)
    : (c.store m capped).byMaster.lookup key
        = if key = m.masterKey then some m else c.byMaster.lookup key := by
  show (c.byMaster.insert m.masterKey m).lookup key = _
  split
  . next hkey => rw [hkey, AList.lookup_insert]
  . next hkey => exact AList.lookup_insert_ne hkey

theorem Accepts.advances (h : c.Accepts m capped) : c.Advances (c.store m capped) := by
  intro key m₀ hm₀
  rw [lookup_byMaster_store]
  split
  . next hkey =>
    refine ⟨m, rfl, .inr ?_⟩
    have hfresh := h.fresh
    unfold isStale at hfresh
    rw [← hkey, hm₀] at hfresh
    rw [decide_eq_false_iff_not, UInt32.not_le] at hfresh
    exact hfresh
  . exact ⟨m₀, hm₀, .inl rfl⟩

theorem ephemeral_ne_masterKey (hwf : m.WellFormed) : m.ephemeral ≠ some m.masterKey := by
  unfold Manifest.ephemeral
  split
  . exact nofun
  . next hrevoked =>
    intro heq
    exact hwf (Bool.not_eq_true _ |>.mp hrevoked) (Option.some_inj.mp heq)

theorem Accepts.disjoint (h : c.Accepts m capped) (hc : c.Consistent) (hwf : m.WellFormed)
    (key : PublicKey) (hkey : (c.store m capped).byMaster.lookup key ≠ none)
    : (c.store m capped).signingToMaster.lookup key = none := by
  have hnone : c.signingToMaster.lookup key = none := by
    rw [lookup_byMaster_store] at hkey
    split at hkey
    . next heq =>
      rw [heq]
      exact h.master
    . exact hc.disjoint key hkey
  have hephemeral : m.ephemeral ≠ some key := by
    intro heq
    rw [lookup_byMaster_store] at hkey
    split at hkey
    . next hmaster =>
      rw [hmaster] at heq
      exact ephemeral_ne_masterKey hwf heq
    . exact hkey (h.ephemeral key heq).2
  rw [lookup_store, Assoc.reindex, if_neg hephemeral, hnone]
  split <;> rfl

theorem Accepts.known (hc : c.Consistent) (key : PublicKey)
    (hkey : key ∈ (c.store m capped).untrustedMasters)
    : (c.store m capped).byMaster.lookup key ≠ none := by
  rw [lookup_byMaster_store]
  split
  . exact nofun
  . next hne =>
    apply hc.known
    unfold store at hkey
    dsimp only at hkey
    split at hkey
    . rcases mem_insert.mp hkey with heq | hmem
      . exact absurd heq hne
      . exact hmem
    split at hkey
    . exact mem_of_mem_erase hkey
    . exact hkey

theorem Accepts.bound (h : c.Accepts m capped) (hc : c.Consistent)
    : (c.store m capped).untrustedMasters.card ≤ (c.store m capped).maxUntrustedCount := by
  have hbound := hc.bound
  unfold store
  dsimp only
  split
  . next hnew =>
    have hroom := h.room
    rw [Bool.and_eq_true] at hnew
    unfold overCapacity at hroom
    rw [hnew.1, hnew.2] at hroom
    simp only [Bool.and_self, Bool.true_and, decide_eq_false_iff_not] at hroom
    have hle := card_insert_le m.masterKey c.untrustedMasters
    omega
  split
  . have hle := card_erase_le (s := c.untrustedMasters) (a := m.masterKey)
    omega
  . exact hbound

theorem Consistent.store (hc : c.Consistent) (h : c.Accepts m capped) (hwf : m.WellFormed)
    : (c.store m capped).Consistent where
  inverse := by
    intro k v
    show (c.store m capped).signingToMaster.lookup v = some k ↔ _
    rw [getSigningKey_store, lookup_store]
    apply hc.inverse.update
    intro key hkey
    exact (h.ephemeral key hkey).1
  disjoint := h.disjoint hc hwf
  known := Accepts.known hc
  bound := h.bound hc

theorem Consistent.promoteToTrusted (hc : c.Consistent) (masterKey : PublicKey)
    : (c.promoteToTrusted masterKey).Consistent where
  inverse := hc.inverse
  disjoint := hc.disjoint
  known := fun key hkey => hc.known key (mem_of_mem_erase hkey)
  bound := Nat.le_trans card_erase_le hc.bound

theorem consistent_newCache (maxUntrusted : Option Int) : (newCache maxUntrusted).Consistent where
  inverse := by
    intro k v
    constructor
    . intro h
      cases h
    intro h
    cases h
  disjoint := fun _ h => absurd rfl h
  known := fun key hkey => absurd hkey (notMem_empty key)
  bound := Nat.zero_le _

end Cache

section

theorem Cache.Consistent.of_revoked {c : Cache} (h : c.Consistent)
    (hm : c.byMaster.lookup key = some m) (hrevoked : m.revoked = true)
    : c.getSigningKey key = none
      ∧ (∀ signingKey, c.signingToMaster.lookup signingKey ≠ some key)
      ∧ ∀ signingKey sequence, c.withCurrent key signingKey sequence = false := by
  have hcurrent : c.current key = none := by
    unfold current
    rw [hm]
    exact if_pos hrevoked
  have hnone : c.getSigningKey key = none := by
    unfold getSigningKey
    rw [hcurrent]
    rfl
  refine ⟨hnone, ?_, ?_⟩
  . intro signingKey hlookup
    rw [h.inverse key signingKey, hnone] at hlookup
    cases hlookup
  intro signingKey sequence
  unfold withCurrent
  rw [hcurrent]

variable [Codec] [Signatures] [Sha512Half]

def Cache.Phase.Sound : Cache.Phase → Prop
  | .checkCapacity _ _ => True
  | .deserialize _ _ => True
  | .checkStale owned _ => owned.WellFormed
  | .verify owned _ => owned.WellFormed
  | .applyLocked owned _ => owned.WellFormed

theorem Cache.advance_cases (c : Cache) (h : phase.Sound)
    : ((∃ phase', phase'.Sound ∧ c.advance phase = (.inl phase', c))
        ∨ ∃ disp, disp ≠ .accepted ∧ c.advance phase = (.inr disp, c))
      ∨ ∃ m capped, m.WellFormed ∧ c.Accepts m capped
          ∧ c.advance phase = (.inr .accepted, c.store m capped) := by
  cases phase with
  | checkCapacity m capped =>
    left
    unfold advance
    dsimp only
    split
    . exact .inr ⟨_, by decide, rfl⟩
    . exact .inl ⟨.deserialize m capped, trivial, rfl⟩
  | deserialize m capped =>
    left
    unfold advance
    dsimp only
    split
    . exact .inr ⟨_, by decide, rfl⟩
    . next owned heq => exact .inl ⟨.checkStale owned capped, wellFormed_of_deserialize heq, rfl⟩
  | checkStale owned capped =>
    left
    unfold advance
    dsimp only
    split
    . exact .inr ⟨_, by decide, rfl⟩
    . exact .inl ⟨.verify owned capped, h, rfl⟩
  | verify owned capped =>
    left
    unfold advance
    dsimp only
    split
    . exact .inr ⟨_, by decide, rfl⟩
    . exact .inl ⟨.applyLocked owned capped, h, rfl⟩
  | applyLocked owned capped =>
    unfold advance
    dsimp only
    rcases c.applyLocked_cases owned capped with ⟨d, hd, heq⟩ | ⟨haccepts, heq⟩
    . rw [heq]
      exact .inl (.inr ⟨d, hd, rfl⟩)
    rw [heq]
    exact .inr ⟨owned, capped, h, haccepts, rfl⟩

structure Shared where
  cache : Cache
  call : Option Cache.Phase

inductive Event where
  | applyManifest (m : Option Manifest) (policies : List CapPolicy)
  | advance
  | promoteToTrusted (masterKey : PublicKey)

namespace Shared

def step (s : Shared) : Event → Option Disposition × Shared
  | .applyManifest none _ => (some .invalid, s)
  | .applyManifest (some m) policies =>
    match s.call with
    | some _ => (none, s)
    | none => (none, { s with call := some (.checkCapacity m (Cache.isCapped policies)) })
  | .advance =>
    match s.call with
    | none => (none, s)
    | some phase =>
      match s.cache.advance phase with
      | (.inl phase, cache) => (none, { cache := cache, call := some phase })
      | (.inr disp, cache) => (some disp, { cache := cache, call := none })
  | .promoteToTrusted masterKey => (none, { s with cache := s.cache.promoteToTrusted masterKey })

def run (s : Shared) (events : List Event) : Shared := events.foldl (fun s e => (s.step e).2) s

def new (maxUntrusted : Option Int) : Shared := { cache := .newCache maxUntrusted, call := none }

variable {s : Shared}

structure Inv (s : Shared) : Prop where
  consistent : s.cache.Consistent
  sound : ∀ phase, s.call = some phase → phase.Sound

inductive Effect (s : Shared) (e : Event) : Prop where
  | idle (hcache : (s.step e).2.cache = s.cache)
  | promoted (masterKey : PublicKey) (he : e = .promoteToTrusted masterKey)
      (hcache : (s.step e).2.cache = s.cache.promoteToTrusted masterKey)
  | stored (m : Manifest) (capped : Bool) (hwf : m.WellFormed) (haccepts : s.cache.Accepts m capped)
      (hresult : (s.step e).1 = some .accepted)
      (hcache : (s.step e).2.cache = s.cache.store m capped)

theorem Inv.step (h : s.Inv) (e : Event)
    : Effect s e ∧ ∀ phase, (s.step e).2.call = some phase → phase.Sound := by
  cases e with
  | applyManifest m policies =>
    cases m with
    | none => exact ⟨.idle rfl, h.sound⟩
    | some m =>
      cases hcall : s.call with
      | some phase =>
        have hstep : s.step (.applyManifest (some m) policies) = (none, s) := by
          simp [Shared.step, hcall]
        rw [hstep]
        refine ⟨.idle (by rw [hstep]), h.sound⟩
      | none =>
        have hstep : s.step (.applyManifest (some m) policies)
            = (none, { s with call := some (.checkCapacity m (Cache.isCapped policies)) }) := by
          simp [Shared.step, hcall]
        rw [hstep]
        refine ⟨.idle (by rw [hstep]), ?_⟩
        intro phase hphase
        cases hphase
        trivial
  | advance =>
    cases hcall : s.call with
    | none =>
      have hstep : s.step .advance = (none, s) := by
        simp [Shared.step, hcall]
      rw [hstep]
      exact ⟨.idle (by rw [hstep]), h.sound⟩
    | some phase =>
      rcases s.cache.advance_cases (h.sound phase hcall)
        with (⟨phase', hsound, heq⟩ | ⟨disp, _, heq⟩) | ⟨m, capped, hwf, haccepts, heq⟩
      . have hstep : s.step .advance = (none, { cache := s.cache, call := some phase' }) := by
          simp [Shared.step, hcall, heq]
        rw [hstep]
        refine ⟨.idle (by rw [hstep]), ?_⟩
        intro phase hphase
        cases hphase
        exact hsound
      . have hstep : s.step .advance = (some disp, { cache := s.cache, call := none }) := by
          simp [Shared.step, hcall, heq]
        rw [hstep]
        refine ⟨.idle (by rw [hstep]), ?_⟩
        intro phase hphase
        cases hphase
      have hstep : s.step .advance
          = (some .accepted, { cache := s.cache.store m capped, call := none }) := by
        simp [Shared.step, hcall, heq]
      rw [hstep]
      refine ⟨.stored m capped hwf haccepts (by rw [hstep]) (by rw [hstep]), ?_⟩
      intro phase hphase
      cases hphase
  | promoteToTrusted masterKey => exact ⟨.promoted masterKey rfl rfl, h.sound⟩

theorem Inv.next (h : s.Inv) (e : Event)
    : (s.step e).2.Inv ∧ s.cache.Advances (s.step e).2.cache := by
  obtain ⟨heffect, hsound⟩ := h.step e
  cases heffect with
  | idle hcache =>
    refine ⟨⟨?_, hsound⟩, ?_⟩
    . rw [hcache]
      exact h.consistent
    rw [hcache]
    exact .refl _
  | promoted masterKey he hcache =>
    refine ⟨⟨?_, hsound⟩, ?_⟩
    . rw [hcache]
      exact h.consistent.promoteToTrusted masterKey
    rw [hcache]
    exact .refl s.cache
  | stored m capped hwf haccepts _ hcache =>
    refine ⟨⟨?_, hsound⟩, ?_⟩
    . rw [hcache]
      exact h.consistent.store haccepts hwf
    rw [hcache]
    exact haccepts.advances

theorem Inv.run (h : s.Inv) (events : List Event)
    : (s.run events).Inv ∧ s.cache.Advances (s.run events).cache := by
  induction events generalizing s with
  | nil => exact ⟨h, .refl _⟩
  | cons e events ih =>
    obtain ⟨hnext, hadvances⟩ := h.next e
    obtain ⟨hrun, hlater⟩ := ih hnext
    exact ⟨hrun, hadvances.trans hlater⟩

theorem Inv.maxUntrustedCount_run (h : s.Inv) (events : List Event)
    : (s.run events).cache.maxUntrustedCount = s.cache.maxUntrustedCount := by
  induction events generalizing s with
  | nil => rfl
  | cons e events ih =>
    refine (ih (h.next e).1).trans ?_
    cases (h.step e).1 with
    | idle hcache => rw [hcache]
    | promoted masterKey _ hcache => rw [hcache, Cache.promoteToTrusted]
    | stored m capped _ _ _ hcache => rw [hcache, Cache.store]

omit [Codec] [Signatures] [Sha512Half] in
theorem inv_new (maxUntrusted : Option Int) : (new maxUntrusted).Inv where
  consistent := Cache.consistent_newCache maxUntrusted
  sound := nofun

theorem Inv.unchanged (h : s.Inv) (he : ∀ masterKey, e ≠ .promoteToTrusted masterKey)
    (hresult : (s.step e).1 ≠ some .accepted)
    : (s.step e).2.cache = s.cache := by
  cases (h.step e).1 with
  | idle hcache => exact hcache
  | promoted masterKey heq _ => exact absurd heq (he masterKey)
  | stored _ _ _ _ haccepted _ => exact absurd haccepted hresult

end Shared

/--
In every interleaving of the calls the three maps of the cache agree, and the manifest of a master
is only replaced by a later one.
-/
theorem cache_of_events (maxUntrusted : Option Int) (events later : List Event)
    : let s := (Shared.new maxUntrusted).run events
      let s' := s.run later
      s.cache.Consistent
        ∧ s.cache.maxUntrustedCount = (Cache.newCache maxUntrusted).maxUntrustedCount
        ∧ s.cache.Advances s'.cache
        ∧ (∀ key, s.cache.isRevoked key = true →
            s'.cache.isRevoked key = true
              ∧ s'.cache.getSigningKey key = none
              ∧ (∀ signingKey, s'.cache.signingToMaster.lookup signingKey ≠ some key)
              ∧ ∀ signingKey sequence, s'.cache.withCurrent key signingKey sequence = false)
        ∧ ∀ e, (∀ masterKey, e ≠ .promoteToTrusted masterKey) → (s.step e).1 ≠ some .accepted →
            (s.step e).2.cache = s.cache := by
  intro s s'
  have hnew := Shared.inv_new maxUntrusted
  have hs : s.Inv := (hnew.run events).1
  obtain ⟨hs', hadvances⟩ := hs.run later
  refine ⟨hs.consistent, hnew.maxUntrustedCount_run events, hadvances, ?_, ?_⟩
  . intro key hrevoked
    unfold Cache.isRevoked at hrevoked
    cases hm : s.cache.byMaster.lookup key with
    | none =>
      rw [hm] at hrevoked
      cases hrevoked
    | some m =>
      rw [hm] at hrevoked
      have hm' := hadvances.lookup_of_revoked hm hrevoked
      refine ⟨?_, hs'.consistent.of_revoked hm' hrevoked⟩
      unfold Cache.isRevoked
      rw [hm']
      exact hrevoked
  intro e he hresult
  exact hs.unchanged he hresult

end

end Manifest
