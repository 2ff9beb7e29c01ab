import GoXrpl.Program.Basic
import GoXrpl.SkipList.Chain

/-!
This module contains the condition under which a ledger that updated its lists lets the next one do so.
-/

open State Fallible State.Keylet

namespace SkipList

open UInt32 (toNat_inj le_iff_toNat_le toNat_sub_of_le)

section

theorem orWrap_eq_ok {α : Type} {msg : String} {x : Except Error α} {a : α}
    (h : SHAMap.orWrap msg x = .ok a)
    : x = .ok a := by
  cases x with
  | error err => cases h
  | ok => exact h

variable [LedgerHashesCodec]

/--
The optional fields of an entry that was read can be written again.
-/
def Readable (first : Option UInt32) (sponsor : Option (List UInt8)) : Prop :=
  (first = none ∧ sponsor = none) ∨ ∃ data fields hashes,
    LedgerHashesCodec.decodeLedgerHashes data = some (fields, hashes)
    ∧ fields.firstLedgerSequence = first ∧ fields.sponsor = sponsor

variable [Sha512Half]

/--
The list under `key` can be read and passes `check` against the index due.
-/
def Fits (check : List Hash256 → UInt32 → UInt32 → Except Error Unit) (sm : SHAMap) (key : Hash256)
    (prevIndex : UInt32) : Prop :=
  ∃ fields hashes lastSeq, readLedgerHashesSLE sm key = .ok (fields, hashes, lastSeq)
    ∧ check hashes lastSeq prevIndex = .ok ()

def RollingFits (sm : SHAMap) (prevIndex : UInt32) : Prop :=
  Fits assertSkipListConsistent sm ledgerHashes.key prevIndex

def PageFits (sm : SHAMap) (prevIndex : UInt32) : Prop :=
  Fits assertHistoricalSkipListConsistent sm (ledgerHashesForSeq prevIndex).key prevIndex

def Continues (sm : SHAMap) (seq : UInt32) : Prop :=
  seq = 0 ∨ seq + 1 = 0
    ∨ (seq = 1 ∧ sm.state = .modifying ∧ sm.get ledgerHashes.key = .ok none)
    ∨ (1 < seq ∧ (seq = 2 ∨ sm.get ledgerHashes.key ≠ .ok none)
      ∧ (seq &&& 0xff = 0 → PageFits sm seq))

variable {key hash : Hash256}

omit [Sha512Half] in
theorem reads_of_read (hread : readEntry m key = .ok (fields, hashes, lastSeq))
    : Reads Readable m key hashes lastSeq ∧ (hashes.length = 0 ↔ m key = none) := by
  rcases readEntry_cases hread with ⟨hm, rfl, rfl, _⟩ | ⟨data, entry, hm, rfl, hdecode, _, hlength, _⟩
  . exact ⟨⟨_, hread, .inl ⟨rfl, rfl⟩⟩, by simp [hm]⟩
  refine ⟨⟨_, hread, .inr ⟨data, entry, hashes, hdecode, rfl, rfl⟩⟩, ?_⟩
  rw [hm]
  exact iff_of_false (fun hempty => hlength (.inl hempty)) nofun

theorem of_skipListWrites {writes : List (Option SHAMap.Item)}
    (h : skipListWrites sm prevIndex hash = .ok writes)
    : (prevIndex &&& 0xff = 0 → PageFits sm prevIndex) ∧ RollingFits sm prevIndex := by
  unfold skipListWrites at h
  constructor
  . intro haligned
    rw [if_pos haligned] at h
    obtain ⟨item, hitem, _⟩ := bind_eq_ok h
    obtain ⟨⟨fields, hashes, lastSeq⟩, hread, hitem⟩ := bind_eq_ok hitem
    obtain ⟨_, hassert, _⟩ := bind_eq_ok hitem
    exact ⟨fields, hashes, lastSeq, orWrap_eq_ok hread, orWrap_eq_ok hassert⟩
  have hrolling : ∃ item, appendRolling sm prevIndex hash = .ok item := by
    split at h
    . obtain ⟨_, _, h⟩ := bind_eq_ok h
      obtain ⟨_, _, h⟩ := bind_eq_ok h
      obtain ⟨item, hitem, _⟩ := bind_eq_ok h
      exact ⟨item, hitem⟩
    obtain ⟨_, _, h⟩ := bind_eq_ok h
    obtain ⟨item, hitem, _⟩ := bind_eq_ok h
    exact ⟨item, hitem⟩
  obtain ⟨item, hitem⟩ := hrolling
  obtain ⟨⟨fields, hashes, lastSeq⟩, hread, hitem⟩ := bind_eq_ok hitem
  obtain ⟨_, hassert, _⟩ := bind_eq_ok hitem
  exact ⟨fields, hashes, lastSeq, orWrap_eq_ok hread, orWrap_eq_ok hassert⟩

def Checks (sm : SHAMap) (prevIndex : UInt32) : Prop :=
  sm.state = .modifying ∧ (prevIndex &&& 0xff = 0 → PageFits sm prevIndex) ∧ RollingFits sm prevIndex

variable (hwrites : Writes Readable) (hkeys : KeysApart) (hcontains : Contains sm m)

include hwrites hkeys hcontains

theorem Checks.updateOnMap (hseq : seq ≠ 0) (hprev : seq - 1 ≠ 0) (h : Checks sm (seq - 1)) (hash : Hash256)
    : ∃ sm' m' fields hashes lastSeq, updateOnMap sm seq hash = (.ok (), sm') ∧ sm'.state = .modifying
      ∧ Contains sm' m' ∧ readEntry m ledgerHashes.key = .ok (fields, hashes, lastSeq)
      ∧ assertSkipListConsistent hashes lastSeq (seq - 1) = .ok ()
      ∧ ∃ hashes', Updated Readable m m' (seq - 1) hashes hashes' hash := by
  obtain ⟨hstate, hpage, fields, hashes, lastSeq, hread, hassert⟩ := h
  rw [readLedgerHashesSLE_eq (hcontains.get_eq _)] at hread
  obtain ⟨c, hholds⟩ := hcontains
  have hsame : { sm with state := .modifying } = sm := by rw [← hstate]
  have hhistorical : ∃ hashes' last', seq - 1 &&& 0xff = 0 →
      Reads Readable m (ledgerHashesForSeq (seq - 1)).key hashes' last'
      ∧ assertHistoricalSkipListConsistent hashes' last' (seq - 1) = .ok () := by
    by_cases haligned : seq - 1 &&& 0xff = 0
    . obtain ⟨_, hashes', last', hread', hassert'⟩ := hpage haligned
      rw [← hsame, readLedgerHashesSLE_eq (hholds.get_eq _)] at hread'
      exact ⟨hashes', last', fun _ => ⟨(reads_of_read hread').1, hassert'⟩⟩
    . exact ⟨[], 0, fun hzero => absurd hzero haligned⟩
  obtain ⟨hashes', last', hhistorical⟩ := hhistorical
  rw [hsame] at hholds
  obtain ⟨sm', c', m', hupdate, hholds', hupdated⟩ := updateOnMap_ok hwrites hholds hprev hash hkeys hseq
    rfl (reads_of_read hread).1 hassert hhistorical
  have hopen : { sm' with state := .modifying } = sm' := by rw [← hholds'.state]
  exact ⟨sm', m', fields, hashes, lastSeq, hupdate, hholds'.state, ⟨c', by rw [hopen]; exact hholds'⟩,
    hread, hassert, hashes', hupdated⟩

theorem updateOnMap_iff (hseq : seq ≠ 0) (hprev : seq - 1 ≠ 0)
    : (updateOnMap sm seq hash).1 = .ok () ↔ Checks sm (seq - 1) := by
  constructor
  . intro hok
    unfold updateOnMap at hok
    rw [if_neg (not_or.mpr ⟨hseq, hprev⟩)] at hok
    split at hok
    . cases hok
    . next writes hwritten =>
      refine ⟨?_, of_skipListWrites hwritten⟩
      by_contra hstate
      unfold SHAMap.putItemsAtomically at hok
      rw [if_pos hstate] at hok
      cases hok
  intro hchecks
  obtain ⟨_, _, _, _, _, hupdate, _⟩ := hchecks.updateOnMap hwrites hkeys hcontains hseq hprev hash
  rw [hupdate]

theorem checks_next (hseq : 1 < seq) (hupdate : updateOnMap sm seq hash = (.ok (), sm'))
    : (∃ m', Contains sm' m') ∧ (Checks sm' seq ↔
      (seq = 2 ∨ sm.get ledgerHashes.key ≠ .ok none) ∧ (seq &&& 0xff = 0 → PageFits sm seq)) := by
  have hlt : 1 < seq.toNat := UInt32.lt_iff_toNat_lt.mp hseq
  have hpred : (seq - 1).toNat = seq.toNat - 1 := toNat_sub_of_le _ _ (UInt32.le_of_lt hseq)
  have hpred' : (seq - 1 - 1).toNat = seq.toNat - 2 := by
    rw [toNat_sub_of_le _ _ (by rw [le_iff_toNat_le, hpred]; exact Nat.le_sub_one_of_lt hlt), hpred]
    rfl
  have htwo : seq = 2 ↔ seq.toNat = 2 := toNat_inj.symm
  have hne : seq ≠ 0 := fun hzero => by simp [hzero] at hlt
  have hprev : seq - 1 ≠ 0 := fun hzero => by
    rw [hzero] at hpred
    change 0 = _ at hpred
    omega
  have hchecks := (updateOnMap_iff hwrites hkeys hcontains hne hprev).mp (by rw [hupdate])
  obtain ⟨_, m', fields, hashes, lastSeq, hupdate', hstate, hcontains', hread, hassert, hashes', hupdated⟩ :=
    hchecks.updateOnMap hwrites hkeys hcontains hne hprev hash
  rw [hupdate] at hupdate'
  cases hupdate'
  have hpage : seq &&& 0xff = 0 → (PageFits sm' seq ↔ PageFits sm seq) := by
    intro haligned
    have hsame : m' (ledgerHashesForSeq seq).key = m (ledgerHashesForSeq seq).key := by
      apply hupdated.other _ (hkeys.rolling _)
      intro haligned'
      rw [and_ff_eq_zero_iff] at haligned haligned'
      omega
    unfold PageFits Fits
    rw [readLedgerHashesSLE_eq (hcontains'.get_eq _), readLedgerHashesSLE_eq (hcontains.get_eq _),
      readEntry, hsame]
    rfl
  have hnone : sm.get ledgerHashes.key = .ok none ↔ hashes.length = 0 := by
    rw [hcontains.get_eq, (reads_of_read hread).2, Except.ok.injEq, Option.map_eq_none_iff]
  have hrolling : RollingFits sm' seq
      ↔ (if hashes.length ≥ 256 then hashes.tail else hashes).length + 1 = min (seq.toNat - 1) 256 := by
    obtain ⟨fields', hread', _⟩ := hupdated.rolling
    unfold RollingFits Fits
    rw [readLedgerHashesSLE_eq (hcontains'.get_eq _), hread']
    simp [assertSkipListConsistent_eq_ok, hpred]
  have hlengths : (if hashes.length ≥ 256 then hashes.tail else hashes).length + 1
      = min (seq.toNat - 1) 256 ↔ seq.toNat = 2 ∨ ¬ hashes.length = 0 := by
    rw [assertSkipListConsistent_eq_ok, hpred'] at hassert
    split
    . rw [List.length_tail]
      omega
    . omega
  refine ⟨⟨m', hcontains'⟩, ?_⟩
  unfold Checks
  rw [hrolling, Ne, hnone, htwo, imp_congr_right hpage, hlengths]
  exact ⟨fun h => ⟨h.2.2, h.2.1⟩, fun h => ⟨hstate, h.2, h.1⟩⟩

/--
After an update the next one succeeds exactly when the map had a rolling list before, or the list was
due to have no hash, and the page due next is one that the check accepts.
-/
theorem updateOnMap_next_iff (hupdate : updateOnMap sm seq hash = (.ok (), sm'))
    : (∀ hash', (updateOnMap sm' (seq + 1) hash').1 = .ok ()) ↔ Continues sm seq := by
  have hnext : seq + 1 - 1 = seq := UInt32.add_sub_cancel _ _
  by_cases hzero : seq = 0
  . subst hzero
    exact iff_of_true (fun _ => rfl) (.inl rfl)
  by_cases hlast : seq + 1 = 0
  . refine iff_of_true (fun hash' => ?_) (.inr (.inl hlast))
    rw [hlast]
    rfl
  have hiff : ∀ {m'}, Contains sm' m' →
      ((∀ hash', (updateOnMap sm' (seq + 1) hash').1 = .ok ()) ↔ Checks sm' seq) := by
    intro m' hcontains'
    have hchecks (hash' : Hash256) : (updateOnMap sm' (seq + 1) hash').1 = .ok () ↔ Checks sm' seq := by
      rw [updateOnMap_iff hwrites hkeys hcontains' hlast (hnext.symm ▸ hzero), hnext]
    exact ⟨fun hall => (hchecks hash).mp (hall hash), fun h hash' => (hchecks hash').mpr h⟩
  by_cases hone : seq = 1
  . subst hone
    cases hupdate
    have hrolling : RollingFits sm 1 ↔ sm.get ledgerHashes.key = .ok none := by
      unfold RollingFits Fits
      rw [readLedgerHashesSLE_eq (hcontains.get_eq _), hcontains.get_eq, Except.ok.injEq,
        Option.map_eq_none_iff]
      constructor
      . rintro ⟨fields, hashes, lastSeq, hread, hassert⟩
        rw [← (reads_of_read hread).2]
        rcases assertSkipListConsistent_eq_ok.mp hassert with ⟨hempty, _⟩ | ⟨_, hempty⟩
        . exact hempty
        . exact hempty
      intro hnone
      exact ⟨none, [], 0, by rw [readEntry, hnone]; rfl, rfl⟩
    have hodd : (1 : UInt32) &&& 0xff ≠ 0 := by decide
    rw [hiff hcontains, Checks, hrolling]
    simp [Continues, hodd]
  have hlt : 1 < seq := by
    rw [UInt32.lt_iff_toNat_lt]
    rw [← toNat_inj] at hzero hone
    change seq.toNat ≠ 0 at hzero
    change seq.toNat ≠ 1 at hone
    change 1 < _
    omega
  obtain ⟨⟨m', hcontains'⟩, hchecks⟩ := checks_next hwrites hkeys hcontains hlt hupdate
  rw [hiff hcontains', hchecks]
  simp [Continues, hzero, hlast, hone, hlt]

end

namespace Sample

attribute [local instance] sha512Half codec

theorem codec_writes : Writes Readable := by
  intro fields hashes hreadable
  have hplain : fields.firstLedgerSequence = none ∧ fields.sponsor = none := by
    rcases hreadable with hplain | ⟨data, decoded, _, hdecode, hfirst, hsponsor⟩
    . exact hplain
    cases hdecode
    exact ⟨hfirst.symm, hsponsor.symm⟩
  exact codec_writes_plain fields hashes hplain

theorem third_after_second
    : (updateOnMap (SHAMap.new .state) 2 (hashOf 1)).1 = .ok ()
      ∧ ∀ hash', (updateOnMap (updateOnMap (SHAMap.new .state) 2 (hashOf 1)).2 3 hash').1 = .ok () := by
  have hupdate : (updateOnMap (SHAMap.new .state) 2 (hashOf 1)).1 = .ok () := by decide +kernel
  have hcontains : Contains (SHAMap.new .state) fun _ => none := ⟨_, SHAMap.holds_new .state⟩
  have hcontinues : Continues (SHAMap.new .state) 2 :=
    .inr (.inr (.inr ⟨by decide, .inl rfl, fun haligned => absurd haligned (by decide)⟩))
  exact ⟨hupdate, (updateOnMap_next_iff codec_writes keysApart hcontains (Prod.ext hupdate rfl)).mpr
    hcontinues⟩

-- A list begun at 3 has one hash, where the update at 4 wants two.
theorem stuck_after_adoption
    : (updateOnMap (SHAMap.new .state) 3 (hashOf 2)).1 = .ok ()
      ∧ (updateOnMap (updateOnMap (SHAMap.new .state) 3 (hashOf 2)).2 4 (hashOf 3)).1 ≠ .ok () := by
  decide +kernel

end Sample

end SkipList
