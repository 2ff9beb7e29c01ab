import GoXrpl.Assoc.Basic
import GoXrpl.Manifest.Impl.Cache
import GoXrpl.Program.Basic

namespace Manifest

open Fallible (bind_eq_ok)

def WellFormed (m : Manifest) : Prop := m.revoked = false → m.signingKey ≠ m.masterKey

theorem wellFormed_of_parseEphemeral [Codec] (h : parseEphemeral decoded m = .ok m')
    : m'.WellFormed := by
  intro hrevoked
  unfold parseEphemeral at h
  dsimp only at h
  split at h
  . next hm =>
    split at h
    . cases h
    obtain ⟨preimage, _, h⟩ := bind_eq_ok h
    cases h
    -- a revocation stays one
    exact absurd (hm.symm.trans hrevoked) (by decide)
  split at h
  . cases h
  obtain ⟨signing, _, h⟩ := bind_eq_ok h
  split at h
  . cases h
  . next hne =>
    obtain ⟨signature, _, h⟩ := bind_eq_ok h
    obtain ⟨preimage, _, h⟩ := bind_eq_ok h
    cases h
    exact hne

theorem wellFormed_of_deserialize [Codec] [Sha512Half] (h : deserialize data = .ok m)
    : m.WellFormed := by
  unfold deserialize at h
  split at h
  . cases h
  split at h
  . cases h
  obtain ⟨decoded, _, h⟩ := bind_eq_ok h
  obtain ⟨_, _, h⟩ := bind_eq_ok h
  obtain ⟨masterHex, _, h⟩ := bind_eq_ok h
  obtain ⟨master, _, h⟩ := bind_eq_ok h
  obtain ⟨seq, _, h⟩ := bind_eq_ok h
  obtain ⟨masterSignature, _, h⟩ := bind_eq_ok h
  obtain ⟨canonical, _, h⟩ := bind_eq_ok h
  obtain ⟨domain, _, h⟩ := bind_eq_ok h
  exact wellFormed_of_parseEphemeral h

theorem revoked_iff (m : Manifest) : m.revoked = true ↔ m.sequence = revokedSequence := by
  exact beq_iff_eq

theorem not_lt_of_revoked {m : Manifest} (h : m.revoked = true) (seq : UInt32)
    : ¬ m.sequence < seq := by
  rw [(revoked_iff m).mp h, UInt32.lt_iff_toNat_lt]
  have hlt := seq.toNat_lt
  have hmax : revokedSequence.toNat = 4294967295 := rfl
  omega

def ephemeral (m : Manifest) : Option PublicKey := if m.revoked then none else some m.signingKey

namespace Cache

variable {c : Cache}

theorem getSigningKey_eq (c : Cache) (masterKey : PublicKey)
    : c.getSigningKey masterKey = (c.byMaster.lookup masterKey).bind ephemeral := by
  unfold getSigningKey current ephemeral
  cases c.byMaster.lookup masterKey with
  | none => rfl
  | some m =>
    simp only [Option.bind_some]
    split <;> rfl

theorem getSigningKey_store
    : (c.store m capped).getSigningKey
        = Function.update c.getSigningKey m.masterKey m.ephemeral := by
  funext k
  rw [getSigningKey_eq]
  show ((c.byMaster.insert m.masterKey m).lookup k).bind ephemeral = _
  by_cases hk : k = m.masterKey
  . rw [hk, AList.lookup_insert, Function.update_self]
    rfl
  . rw [AList.lookup_insert_ne hk, Function.update_of_ne hk, getSigningKey_eq]

theorem lookup_dropped (c : Cache) (masterKey signingKey : PublicKey)
    : (match c.byMaster.lookup masterKey with
        | some prev =>
          if prev.revoked then c.signingToMaster else c.signingToMaster.erase prev.signingKey
        | none => c.signingToMaster).lookup signingKey
        =
      if c.getSigningKey masterKey = some signingKey then
        none
      else
        c.signingToMaster.lookup signingKey := by
  rw [getSigningKey_eq]
  cases c.byMaster.lookup masterKey with
  | none => rfl
  | some prev =>
    simp only [Option.bind_some, ephemeral]
    split
    . rfl
    by_cases hkey : prev.signingKey = signingKey
    . subst hkey
      simp
    rw [AList.lookup_erase_ne (Ne.symm hkey)]
    simp [hkey]

theorem lookup_store (signingKey : PublicKey)
    : (c.store m capped).signingToMaster.lookup signingKey
        = Assoc.reindex c.signingToMaster.lookup m.masterKey (c.getSigningKey m.masterKey)
            m.ephemeral signingKey := by
  have hdropped := lookup_dropped c m.masterKey signingKey
  unfold Assoc.reindex
  rw [← hdropped]
  unfold store ephemeral
  dsimp only
  by_cases hrevoked : m.revoked
  . rw [if_pos hrevoked, if_pos hrevoked]
    rfl
  rw [if_neg hrevoked, if_neg hrevoked]
  by_cases hkey : m.signingKey = signingKey
  . subst hkey
    rw [if_pos rfl, AList.lookup_insert]
  rw [if_neg (by simpa using hkey)]
  exact AList.lookup_insert_ne (Ne.symm hkey)

structure Accepts (c : Cache) (m : Manifest) (capped : Bool) : Prop where
  room : c.overCapacity m.masterKey capped = false
  fresh : c.isStale m = false
  master : c.signingToMaster.lookup m.masterKey = none
  ephemeral : ∀ key, m.ephemeral = some key →
    c.signingToMaster.lookup key = none ∧ c.byMaster.lookup key = none

theorem applyLocked_cases (c : Cache) (m : Manifest) (capped : Bool)
    : (∃ d, d ≠ .accepted ∧ c.applyLocked m capped = (d, c))
      ∨ (c.Accepts m capped ∧ c.applyLocked m capped = (.accepted, c.store m capped)) := by
  unfold applyLocked
  split
  . exact .inl ⟨_, by decide, rfl⟩
  . next hroom =>
    split
    . exact .inl ⟨_, by decide, rfl⟩
    . next hfresh =>
      split
      . exact .inl ⟨_, by decide, rfl⟩
      . next hmaster =>
        split
        . exact .inl ⟨_, by decide, rfl⟩
        . next hsigning =>
          split
          . exact .inl ⟨_, by decide, rfl⟩
          . next hknown =>
            right
            refine ⟨⟨?_, ?_, ?_, ?_⟩, rfl⟩
            . exact Bool.not_eq_true _ |>.mp hroom
            . exact Bool.not_eq_true _ |>.mp hfresh
            . exact Option.not_isSome_iff_eq_none.mp hmaster
            intro key hkey
            unfold Manifest.ephemeral at hkey
            split at hkey
            . cases hkey
            . next hrevoked =>
              cases hkey
              simp only [hrevoked, Bool.not_false, Bool.true_and] at hsigning hknown
              exact ⟨Option.not_isSome_iff_eq_none.mp hsigning,
                Option.not_isSome_iff_eq_none.mp hknown⟩

end Cache

end Manifest
