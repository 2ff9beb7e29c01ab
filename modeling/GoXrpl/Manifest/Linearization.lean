import GoXrpl.Manifest.Invariant

/-!
This module contains the sequential history behind every interleaving of the calls on a manifest
cache.
-/

namespace Manifest

variable [Codec] [Signatures] [Sha512Half]

inductive Call where
  | applyManifest (m : Option Manifest) (policies : List CapPolicy)
  | promoteToTrusted (masterKey : PublicKey)

namespace Cache

def answer (c : Cache) : Call → List Disposition × Cache
  | .applyManifest m policies => ([(c.applyManifest m policies).1], (c.applyManifest m policies).2)
  | .promoteToTrusted masterKey => ([], c.promoteToTrusted masterKey)

def replay (c : Cache) : List Call → List Disposition × Cache
  | [] => ([], c)
  | call :: calls =>
    ((c.answer call).1 ++ ((c.answer call).2.replay calls).1, ((c.answer call).2.replay calls).2)

-- What the parts of a call that have run found out still holds, though keys were promoted since.
def Seen (c : Cache) (m : Manifest) (capped : Bool) : Phase → Prop
  | .checkCapacity m' capped' => m' = m ∧ capped' = capped
  | .deserialize m' capped' => m' = m ∧ capped' = capped ∧ c.overCapacity m.masterKey capped = false
  | .checkStale owned capped' =>
    capped' = capped ∧ c.overCapacity m.masterKey capped = false
      ∧ Manifest.deserialize m.serialized = .ok owned
  | .verify owned capped' =>
    capped' = capped ∧ c.overCapacity m.masterKey capped = false
      ∧ Manifest.deserialize m.serialized = .ok owned ∧ c.isStale owned = false
  | .applyLocked owned capped' =>
    capped' = capped ∧ c.overCapacity m.masterKey capped = false
      ∧ Manifest.deserialize m.serialized = .ok owned ∧ c.isStale owned = false
      ∧ owned.verify = .ok ()

variable {c : Cache}

theorem replay_append (calls calls' : List Call)
    : c.replay (calls ++ calls')
      = ((c.replay calls).1 ++ ((c.replay calls).2.replay calls').1,
          ((c.replay calls).2.replay calls').2) := by
  induction calls generalizing c with
  | nil => rfl
  | cons call calls ih => simp only [List.cons_append, replay, ih, List.append_assoc]

omit [Codec] [Signatures] [Sha512Half] in
theorem overCapacity_promoteToTrusted (h : c.overCapacity key capped = false) (key' : PublicKey)
    : (c.promoteToTrusted key').overCapacity key capped = false := by
  have hcard : (c.untrustedMasters.erase key').card ≤ c.untrustedMasters.card := Finset.card_erase_le
  unfold overCapacity promoteToTrusted at *
  grind

theorem Seen.promoteToTrusted (h : c.Seen m capped phase) (key' : PublicKey)
    : (c.promoteToTrusted key').Seen m capped phase := by
  cases phase with
  | checkCapacity => exact h
  | deserialize => exact ⟨h.1, h.2.1, overCapacity_promoteToTrusted h.2.2 key'⟩
  | checkStale => exact ⟨h.1, overCapacity_promoteToTrusted h.2.1 key', h.2.2⟩
  | verify => exact ⟨h.1, overCapacity_promoteToTrusted h.2.1 key', h.2.2⟩
  | applyLocked => exact ⟨h.1, overCapacity_promoteToTrusted h.2.1 key', h.2.2⟩

/--
A part of a call either leads to the next one or ends with what the whole call does at this moment.
-/
theorem Seen.advance (h : c.Seen m (isCapped policies) phase)
    : (∃ phase', c.advance phase = (.inl phase', c) ∧ c.Seen m (isCapped policies) phase')
      ∨ c.advance phase = (.inr (c.applyManifest (some m) policies).1,
          (c.applyManifest (some m) policies).2) := by
  cases phase with
  | checkCapacity =>
    obtain ⟨rfl, rfl⟩ := h
    simp only [Cache.advance, applyManifest]
    split
    . exact .inr rfl
    . exact .inl ⟨_, rfl, rfl, rfl, Bool.eq_false_of_not_eq_true ‹_›⟩
  | deserialize =>
    obtain ⟨rfl, rfl, room⟩ := h
    simp only [Cache.advance, applyManifest, room]
    cases hparsed : Manifest.deserialize _ with
    | error err => exact .inr rfl
    | ok owned => exact .inl ⟨_, rfl, rfl, room, hparsed⟩
  | checkStale =>
    obtain ⟨rfl, room, parsed⟩ := h
    simp only [Cache.advance, applyManifest, room, parsed]
    split
    . exact .inr rfl
    . exact .inl ⟨_, rfl, rfl, room, parsed, Bool.eq_false_of_not_eq_true ‹_›⟩
  | verify owned =>
    obtain ⟨rfl, room, parsed, fresh⟩ := h
    simp only [Cache.advance, applyManifest, room, parsed, fresh]
    cases hverified : owned.verify with
    | error err => exact .inr rfl
    | ok => exact .inl ⟨_, rfl, rfl, room, parsed, fresh, hverified⟩
  | applyLocked =>
    obtain ⟨rfl, room, parsed, fresh, verified⟩ := h
    simp only [Cache.advance, applyManifest, room, parsed, fresh, verified]
    exact .inr rfl

end Cache

namespace Shared

def answers (s : Shared) : List Event → List Disposition
  | [] => []
  | e :: events => (s.step e).1.toList ++ (s.step e).2.answers events

-- `pending` is the call in flight; a call that is over stands where its last part ran.
def begun (s : Shared) (pending : Option Manifest × List CapPolicy)
    : Event → Option Manifest × List CapPolicy
  | .applyManifest (some m) policies => if s.call.isNone then (some m, policies) else pending
  | _ => pending

def finished (s : Shared) (pending : Option Manifest × List CapPolicy) : Event → List Call
  | .promoteToTrusted masterKey => [.promoteToTrusted masterKey]
  | .applyManifest none policies => [.applyManifest none policies]
  | e => (s.step e).1.toList.map fun _ => .applyManifest pending.1 pending.2

def history (s : Shared) (pending : Option Manifest × List CapPolicy) : List Event → List Call
  | [] => []
  | e :: events => s.finished pending e ++ (s.step e).2.history (s.begun pending e) events

def Tracks (s : Shared) (pending : Option Manifest × List CapPolicy) : Prop :=
  ∀ phase, s.call = some phase →
    ∃ m, pending.1 = some m ∧ s.cache.Seen m (Cache.isCapped pending.2) phase

variable {s : Shared}

theorem Tracks.step (h : s.Tracks pending) (e : Event)
    : (s.step e).2.Tracks (s.begun pending e)
      ∧ s.cache.replay (s.finished pending e) = ((s.step e).1.toList, (s.step e).2.cache) := by
  cases e with
  | promoteToTrusted masterKey =>
    refine ⟨fun phase hphase => ?_, rfl⟩
    obtain ⟨m, hm, hseen⟩ := h phase hphase
    exact ⟨m, hm, hseen.promoteToTrusted masterKey⟩
  | applyManifest m policies =>
    cases m with
    | none => exact ⟨h, rfl⟩
    | some m =>
      simp only [Shared.step, begun, finished]
      cases hcall : s.call with
      | none =>
        refine ⟨?_, rfl⟩
        rintro _ ⟨⟩
        exact ⟨m, rfl, rfl, rfl⟩
      | some phase => exact ⟨h, rfl⟩
  | advance =>
    simp only [Shared.step, begun, finished]
    cases hcall : s.call with
    | none => exact ⟨h, rfl⟩
    | some phase =>
      obtain ⟨m, hm, hseen⟩ := h phase hcall
      rcases hseen.advance with ⟨phase', hadvance, hnext⟩ | hadvance
      . simp only [hadvance]
        refine ⟨?_, rfl⟩
        rintro _ ⟨⟩
        exact ⟨m, hm, hnext⟩
      simp only [hadvance, hm]
      refine ⟨?_, rfl⟩
      rintro _ ⟨⟩

theorem Tracks.replay (h : s.Tracks pending) (events : List Event)
    : s.cache.replay (s.history pending events) = (s.answers events, (s.run events).cache) := by
  induction events generalizing s pending with
  | nil => rfl
  | cons e events ih =>
    rw [history, Cache.replay_append, (h.step e).2, ih (h.step e).1]
    rfl

theorem call_run_advance (n : Nat) (h : ∀ phase ∈ s.call, 5 ≤ phase.ctorIdx + n)
    : (s.run (List.replicate n .advance)).call = none := by
  induction n generalizing s with
  | zero =>
    cases hcall : s.call with
    | none => exact hcall
    | some phase =>
      have hidx := h phase hcall
      cases phase <;> grind
  | succ n ih =>
    apply ih
    intro phase' hphase'
    unfold Shared.step at hphase'
    cases hcall : s.call with
    | none => simp [hcall] at hphase'
    | some phase =>
      have hidx := h phase hcall
      simp only [hcall] at hphase'
      cases phase <;> simp only [Cache.advance] at hphase' <;> grind

/--
Whatever keys are promoted while a call is in flight, the answers and the cache are those of the same
calls made one after another, each at the moment it returns; and five parts end a call.
-/
theorem linearizable (maxUntrusted : Option Int) (events : List Event)
    : (Cache.newCache maxUntrusted).replay ((new maxUntrusted).history (none, []) events)
        = ((new maxUntrusted).answers events, ((new maxUntrusted).run events).cache)
      ∧ (((new maxUntrusted).run events).run (List.replicate 5 .advance)).call = none := by
  refine ⟨Tracks.replay (s := new maxUntrusted) nofun events, call_run_advance 5 ?_⟩
  intro phase _
  omega

end Shared

end Manifest
