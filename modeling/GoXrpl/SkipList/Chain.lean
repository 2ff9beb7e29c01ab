import GoXrpl.Keylet.Lemmas.Record
import GoXrpl.SkipList.Lemmas.Page

open State Keylet List Nat Except

namespace SkipList

open UInt32 (ofNat toNat_inj le_iff_toNat_le toNat_sub_of_le lt_iff_toNat_lt)

section

def firstOf (g : Nat) : Nat := if g = 0 then 256 else 65536 * g

def countOf (g n : Nat) : Nat :=
  if n ≤ firstOf g then 0 else min ((n - 1 - firstOf g) / 256 + 1) (if g = 0 then 255 else 256)

theorem countOf_le : countOf g n ≤ 256 := by
  unfold countOf
  split
  . omega
  . split <;> omega

theorem countOf_of_dvd (hn : 0 < n) (hdvd : n % 256 = 0)
    : n = firstOf (n / 65536) + 256 * countOf (n / 65536) n
      ∧ countOf (n / 65536) (n + 1) = countOf (n / 65536) n + 1 := by
  unfold countOf firstOf
  constructor <;> split_ifs <;> omega

theorem countOf_succ_of_ne (h : n / 65536 ≠ g ∨ n % 256 ≠ 0) : countOf g (n + 1) = countOf g n := by
  unfold countOf firstOf
  split_ifs <;> omega

theorem countOf_bounds (hpos : 0 < s) (hdvd : s % 256 = 0) (hlt : s < n)
    : 0 < countOf (s / 65536) n ∧ firstOf (s / 65536) ≤ s
      ∧ s ≤ firstOf (s / 65536) + 256 * (countOf (s / 65536) n - 1)
      ∧ (firstOf (s / 65536) + 256 * (countOf (s / 65536) n - 1)) / 65536 = s / 65536
      ∧ (firstOf (s / 65536) + 256 * (countOf (s / 65536) n - 1)) % 256 = 0
      ∧ firstOf (s / 65536) + 256 * (countOf (s / 65536) n - 1) < n := by
  unfold countOf firstOf
  refine ⟨?_, ?_, ?_, ?_, ?_, ?_⟩ <;> split_ifs <;> omega

def rollingPage (h : Nat → Hash256) (n : Nat) : List Hash256 :=
  page h (n - min (n - 1) 256) 1 (min (n - 1) 256)

@[simp]
theorem length_rollingPage
    : (rollingPage h n).length = min (n - 1) 256 := length_page _ _ _ _

theorem rollingPage_succ (hpos : 0 < n)
    : (if (rollingPage h n).length ≥ 256 then (rollingPage h n).tail else rollingPage h n) ++ [h n]
        = rollingPage h (n + 1) := by
  rw [length_rollingPage]
  unfold rollingPage
  by_cases hfull : min (n - 1) 256 ≥ 256
  . have hcount : min (n - 1) 256 = 255 + 1 := by omega
    have hcount' : min (n + 1 - 1) 256 = 255 + 1 := by omega
    have hlast : n + 1 - (255 + 1) + 1 * 255 = n := by omega
    have hfirst : n - (255 + 1) + 1 = n + 1 - (255 + 1) := by omega
    rw [if_pos hfull, hcount, hcount', tail_page, hfirst, page_succ _ _ _ 255, hlast]
  obtain ⟨k, rfl⟩ := exists_eq_succ_of_ne_zero (ne_of_gt hpos)
  have hcount : min (k.succ - 1) 256 = k := by omega
  have hcount' : min (k.succ + 1 - 1) 256 = k + 1 := by omega
  have hfirst : k.succ - k = 1 := by omega
  have hfirst' : k.succ + 1 - (k + 1) = 1 := by omega
  have hlast : 1 + 1 * k = k.succ := by omega
  rw [if_neg hfull, hcount, hcount', hfirst, hfirst', page_succ, hlast]

theorem ofNat_sub (hlt : n < 2 ^ 32) (hle : k ≤ n)
    : ofNat n - ofNat k = ofNat (n - k) := by
  apply toNat_inj.mp
  have hle' : ofNat k ≤ ofNat n := by
    rw [le_iff_toNat_le, toNat_ofNat_of_lt hlt, toNat_ofNat_of_lt (by omega)]
    exact hle
  rw [toNat_sub_of_le _ _ hle', toNat_ofNat_of_lt hlt, toNat_ofNat_of_lt (by omega),
    toNat_ofNat_of_lt (by omega)]

theorem ofNat_sub_one (hpos : 0 < n) (hlt : n < 2 ^ 32)
    : ofNat n - 1 = ofNat (n - 1) := ofNat_sub hlt hpos

theorem wantLen_eq (hlt : n < 2 ^ 32)
    (hnext : n = firstOf (n / 65536) + 256 * countOf (n / 65536) n)
    : (countOf (n / 65536) n : Int)
        = if ofNat n >>> 16 ≠ 0 then (((ofNat n &&& 0xffff) >>> 8).toNat : Int)
          else if ofNat n &&& 0xffff ≠ 0 then
            (((ofNat n &&& 0xffff) >>> 8).toNat : Int) - 1
          else 0 := by
  have hhigh : ofNat n >>> 16 = 0 ↔ n / 65536 = 0 := by
    rw [← toNat_inj, toNat_shiftRight_16, toNat_ofNat_of_lt hlt]
    rfl
  have hlow : ofNat n &&& 0xffff = 0 ↔ n % 65536 = 0 := by
    rw [← toNat_inj, toNat_and_ffff, toNat_ofNat_of_lt hlt]
    rfl
  have hoffset : ((ofNat n &&& 0xffff) >>> 8).toNat = n % 65536 / 256 := by
    rw [toNat_shiftRight_8, toNat_and_ffff, toNat_ofNat_of_lt hlt]
  simp only [ne_eq, hhigh, hlow, hoffset]
  unfold firstOf at hnext
  split at hnext <;> split_ifs <;> omega

theorem firstSeq_eq (hlast : (ofNat last).toNat = last)
    (hpage : last / 65536 = g) (hfirst : firstOf g < 2 ^ 32)
    : (if (ofNat last >>> 16) <<< 16 = 0 then (256 : UInt32) else (ofNat last >>> 16) <<< 16)
        = ofNat (firstOf g) := by
  have hzero : (ofNat last >>> 16) <<< 16 = 0 ↔ g = 0 := by
    rw [← toNat_inj, toNat_shift_16, hlast, hpage]
    change g * 65536 = 0 ↔ g = 0
    omega
  unfold firstOf at hfirst ⊢
  by_cases hg : g = 0
  . rw [if_pos (hzero.mpr hg), if_pos hg]
    rfl
  rw [if_neg (fun h => hg (hzero.mp h)), if_neg hg]
  rw [if_neg hg] at hfirst
  apply toNat_inj.mp
  rw [toNat_shift_16, hlast, hpage, toNat_ofNat_of_lt hfirst, mul_comm]

variable {last last' prevIndex : UInt32}

theorem assertSkipListConsistent_eq_ok
    : assertSkipListConsistent hashes last prevIndex = .ok ()
        ↔ (hashes.length = 0 ∧ last = 0)
          ∨ (last = prevIndex - 1 ∧ hashes.length = min (prevIndex - 1).toNat 256) := by
  unfold assertSkipListConsistent
  split_ifs <;> simp_all

theorem sub_le {n k : UInt32} (h : k ≤ n) : n - k ≤ n := by
  rw [le_iff_toNat_le, toNat_sub_of_le _ _ h]
  exact Nat.sub_le _ _

theorem bounds_of_rolling (hprev : prevIndex ≠ 0)
    (h : assertSkipListConsistent hashes last prevIndex = .ok ())
    : last ≤ prevIndex ∧ hashes.length ≤ 256 := by
  rcases assertSkipListConsistent_eq_ok.mp h with ⟨hempty, rfl⟩ | ⟨rfl, hlength⟩
  . exact ⟨UInt32.zero_le, by omega⟩
  refine ⟨sub_le ?_, by omega⟩
  rw [le_iff_toNat_le]
  exact Nat.pos_of_ne_zero fun hzero => hprev (toNat_inj.mp hzero)

theorem bounds_of_historical (hprev : prevIndex ≠ 0) (haligned : prevIndex &&& 0xff = 0)
    (h : assertHistoricalSkipListConsistent hashes last prevIndex = .ok ())
    : last ≤ prevIndex ∧ hashes.length < 256 := by
  have hoffset : ((prevIndex &&& 0xffff) >>> 8).toNat < 256 := by
    rw [toNat_shiftRight_8, toNat_and_ffff]
    omega
  have hlarge : 256 ≤ prevIndex := by
    have hpos : prevIndex.toNat ≠ 0 := fun hzero => hprev (toNat_inj.mp hzero)
    rw [and_ff_eq_zero_iff] at haligned
    rw [le_iff_toNat_le]
    change 256 ≤ _
    omega
  unfold assertHistoricalSkipListConsistent at h
  dsimp only at h
  split at h
  . next hempty => exact ⟨by rw [hempty.2]; exact UInt32.zero_le, by omega⟩
  split at h
  . cases h
  split at h
  . cases h
  . next hlast =>
    refine ⟨by rw [not_not.mp hlast]; exact sub_le hlarge, ?_⟩
    split_ifs at h <;> omega

variable [Sha512Half]

def histKey (g : Nat) : Hash256 :=
  (Keylet.ledgerHashesForSeq (ofNat (65536 * g))).key

theorem histKey_of_seq (seq : UInt32)
    : (ledgerHashesForSeq seq).key = histKey (seq.toNat / 65536) := by
  have hlt := seq.toNat_lt
  have hpage : ofNat (65536 * (seq.toNat / 65536)) >>> 16 = seq >>> 16 := by
    apply toNat_inj.mp
    rw [toNat_shiftRight_16, toNat_shiftRight_16, toNat_ofNat_of_lt (by omega)]
    omega
  unfold histKey ledgerHashesForSeq
  rw [hpage]

structure KeysApart : Prop where
  rolling : ∀ seq, (Keylet.ledgerHashesForSeq seq).key ≠ Keylet.ledgerHashes.key
  historical : ∀ seq seq', (Keylet.ledgerHashesForSeq seq).key = (Keylet.ledgerHashesForSeq seq').key →
    seq >>> 16 = seq' >>> 16

theorem KeysApart.page_eq (hkeys : KeysApart) (hg : g < 65536) (hg' : g' < 65536)
    (h : histKey g = histKey g')
    : g = g' := by
  have hpage := congrArg UInt32.toNat (hkeys.historical _ _ h)
  rw [toNat_shiftRight_16, toNat_shiftRight_16, toNat_ofNat_of_lt (by omega),
    toNat_ofNat_of_lt (by omega)] at hpage
  omega

variable [LedgerHashesCodec]

structure Inv (h : Nat → Hash256) (n : Nat) (m : SHAMap.Contents) : Prop where
  rolling : Stored m Keylet.ledgerHashes.key (rollingPage h n) (n - 1)
  historical : ∀ g, g < 65536 →
    Stored m (histKey g) (page h (firstOf g) 256 (countOf g n))
      (firstOf g + 256 * (countOf g n - 1))

def SkipKey (key : Hash256) : Prop :=
  key = Keylet.ledgerHashes.key ∨ ∃ g, g < 65536 ∧ key = histKey g

theorem Inv.of_agree (hinv : Inv h n m) (hagree : ∀ key, SkipKey key → m' key = m key)
    : Inv h n m' where
  rolling := hinv.rolling.of_eq (hagree _ (.inl rfl))
  historical g hg := (hinv.historical g hg).of_eq (hagree _ (.inr ⟨g, hg, rfl⟩))

section Update

variable {sm : SHAMap}

/--
What an update leaves: the hash at the end of the rolling list and of the page that is due.
-/
structure Updated (P : Option UInt32 → Option (List UInt8) → Prop) (m m' : SHAMap.Contents)
    (prevIndex : UInt32) (hashes hashes' : List Hash256) (hash : Hash256) : Prop where
  rolling : Reads P m' Keylet.ledgerHashes.key
    ((if hashes.length ≥ 256 then hashes.tail else hashes) ++ [hash]) prevIndex
  historical : prevIndex &&& 0xff = 0 →
    Reads P m' (Keylet.ledgerHashesForSeq prevIndex).key (hashes' ++ [hash]) prevIndex
  other : ∀ key, key ≠ Keylet.ledgerHashes.key →
    (prevIndex &&& 0xff = 0 → key ≠ (Keylet.ledgerHashesForSeq prevIndex).key) → m' key = m key

variable (hwrites : Writes P) (hholds : sm.Holds c m) (hprev : prevIndex ≠ 0) (hash : Hash256)

include hwrites hholds hprev

theorem appendRolling_ok (hstored : Reads P m ledgerHashes.key hashes last)
    (hassert : assertSkipListConsistent hashes last prevIndex = .ok ())
    : ∃ data, appendRolling sm prevIndex hash = .ok { key := ledgerHashes.key, data }
      ∧ 12 ≤ data.length ∧ ∀ m' : SHAMap.Contents, m' ledgerHashes.key = some data →
        Reads P m' ledgerHashes.key
          ((if hashes.length ≥ 256 then hashes.tail else hashes) ++ [hash]) prevIndex := by
  obtain ⟨hle, hmost⟩ := bounds_of_rolling hprev hassert
  obtain ⟨fields, hread, hfields⟩ := hstored
  have hlength : (if hashes.length ≥ 256 then hashes.tail else hashes).length < 256 := by
    split
    . rw [length_tail]
      omega
    . omega
  obtain ⟨data, hencode, hlong, hafter⟩ := encode_reads hwrites hread hfields hle hlength hash
  refine ⟨data, ?_, hlong, hafter⟩
  unfold appendRolling
  simp only [readLedgerHashesSLE_eq (hholds.get_eq _), hread, SHAMap.orWrap, bind, Except.bind, hassert,
    hencode]
  rfl

theorem appendHistorical_ok (haligned : prevIndex &&& 0xff = 0)
    (hstored : Reads P m (ledgerHashesForSeq prevIndex).key hashes last)
    (hassert : assertHistoricalSkipListConsistent hashes last prevIndex = .ok ())
    : ∃ data, appendHistorical sm prevIndex hash
        = .ok { key := (ledgerHashesForSeq prevIndex).key, data }
      ∧ 12 ≤ data.length ∧ ∀ m' : SHAMap.Contents,
        m' (ledgerHashesForSeq prevIndex).key = some data →
        Reads P m' (ledgerHashesForSeq prevIndex).key (hashes ++ [hash]) prevIndex := by
  obtain ⟨hle, hless⟩ := bounds_of_historical hprev haligned hassert
  obtain ⟨fields, hread, hfields⟩ := hstored
  obtain ⟨data, hencode, hlong, hafter⟩ := encode_reads hwrites hread hfields hle hless hash
  refine ⟨data, ?_, hlong, hafter⟩
  unfold appendHistorical
  simp only [readLedgerHashesSLE_eq (hholds.get_eq _), hread, SHAMap.orWrap, bind, Except.bind, hassert,
    hencode]
  rfl

theorem updateOnMap_ok (hkeys : KeysApart) (hseq : seq ≠ 0) (hpred : seq - 1 = prevIndex)
    (hrolling : Reads P m ledgerHashes.key hashes last)
    (hassert : assertSkipListConsistent hashes last prevIndex = .ok ())
    (hhistorical : prevIndex &&& 0xff = 0 →
      Reads P m (ledgerHashesForSeq prevIndex).key hashes' last'
      ∧ assertHistoricalSkipListConsistent hashes' last' prevIndex = .ok ())
    : ∃ sm' c' m', updateOnMap sm seq hash = (.ok (), sm') ∧ SHAMap.Holds sm' c' m'
      ∧ Updated P m m' prevIndex hashes hashes' hash := by
  have hwritten : ∃ writes : List SHAMap.Item, skipListWrites sm prevIndex hash = .ok (writes.map some)
      ∧ (∀ item ∈ writes, 12 ≤ item.data.length)
      ∧ Updated P m (writes.foldl SHAMap.Contents.insert m) prevIndex hashes hashes' hash := by
    obtain ⟨rolling, hwrite, hlong, hstored⟩ :=
      appendRolling_ok hwrites hholds hprev hash hrolling hassert
    by_cases haligned : prevIndex &&& 0xff = 0
    . obtain ⟨hpage, hassert'⟩ := hhistorical haligned
      obtain ⟨historical, hwrite', hlong', hstored'⟩ :=
        appendHistorical_ok hwrites hholds hprev hash haligned hpage hassert'
      refine ⟨[⟨(ledgerHashesForSeq prevIndex).key, historical⟩,
        ⟨ledgerHashes.key, rolling⟩], ?_, by simp [hlong, hlong'], hstored _ ?_,
        fun _ => hstored' _ ?_, ?_⟩
      . unfold skipListWrites
        rw [if_pos haligned, hwrite', hwrite]
        rfl
      . simp [SHAMap.Contents.insert]
      . simp [SHAMap.Contents.insert, hkeys.rolling]
      intro key hne hne'
      simp [SHAMap.Contents.insert, hne, hne' haligned]
    refine ⟨[⟨ledgerHashes.key, rolling⟩], ?_, by simp [hlong], hstored _ ?_,
      fun hzero => absurd hzero haligned, ?_⟩
    . unfold skipListWrites
      rw [if_neg haligned, hwrite]
      rfl
    . simp [SHAMap.Contents.insert]
    intro key hne _
    simp [SHAMap.Contents.insert, hne]
  obtain ⟨writes, hwrites', hlong, hupdated⟩ := hwritten
  have hall : ∀ item ∈ writes.map some, SHAMap.Addable item := by
    intro item hitem
    obtain ⟨item, hmem, rfl⟩ := mem_map.mp hitem
    exact hlong item hmem
  obtain ⟨c', hstaged, hholds'⟩ := hholds.putStaged_eq_ok hall
  have hitems : (writes.map some).filterMap id = writes := by
    simp [filterMap_map]
  rw [hitems] at hholds'
  have hsame : { sm with state := .modifying } = sm := by
    rw [← hholds.state]
  refine ⟨_, c', _, ?_, hholds', hupdated⟩
  unfold updateOnMap
  rw [if_neg (not_or.mpr ⟨hseq, hpred ▸ hprev⟩), hpred, hwrites']
  dsimp only
  unfold SHAMap.putItemsAtomically
  rw [if_neg (not_not.mpr hholds.state), hsame, hstaged]
  rfl

end Update

theorem Inv.update (hwrites : Writes Plain) (hholds : sm.Holds c m) (hinv : Inv h n m)
    (hpos : 0 < n) (hlt : n < 2 ^ 32) (hkeys : KeysApart) (hlt' : n + 1 < 2 ^ 32)
    : ∃ sm' c' m', updateOnMap sm (ofNat (n + 1)) (h n) = (.ok (), sm')
      ∧ SHAMap.Holds sm' c' m' ∧ Inv h (n + 1) m' := by
  have hne : ofNat n ≠ 0 := by
    rw [Ne, ← toNat_inj, toNat_ofNat_of_lt hlt]
    exact ne_of_gt hpos
  have hseq : ofNat (n + 1) ≠ 0 := by
    rw [Ne, ← toNat_inj, toNat_ofNat_of_lt hlt']
    exact succ_ne_zero n
  have haligned : ofNat n &&& 0xff = 0 ↔ n % 256 = 0 := by
    rw [and_ff_eq_zero_iff, toNat_ofNat_of_lt hlt]
  have hkey : (ledgerHashesForSeq (ofNat n)).key = histKey (n / 65536) := by
    rw [histKey_of_seq, toNat_ofNat_of_lt hlt]
  have hpage : n / 65536 < 65536 := by omega
  have hrolling : assertSkipListConsistent (rollingPage h n)
      (if (rollingPage h n).length = 0 then 0 else ofNat (n - 1)) (ofNat n) = .ok () := by
    rw [assertSkipListConsistent_eq_ok, ofNat_sub_one hpos hlt, toNat_ofNat_of_lt (by omega),
      length_rollingPage]
    split
    . next hempty => exact .inl ⟨hempty, rfl⟩
    . exact .inr ⟨rfl, rfl⟩
  have hhistorical : n % 256 = 0 → assertHistoricalSkipListConsistent
      (page h (firstOf (n / 65536)) 256 (countOf (n / 65536) n))
      (if (page h (firstOf (n / 65536)) 256 (countOf (n / 65536) n)).length = 0 then 0
        else ofNat (firstOf (n / 65536) + 256 * (countOf (n / 65536) n - 1))) (ofNat n) = .ok () := by
    intro hdvd
    obtain ⟨hnext, hcount⟩ := countOf_of_dvd hpos hdvd
    unfold assertHistoricalSkipListConsistent
    simp only [length_page]
    by_cases hempty : countOf (n / 65536) n = 0
    . simp [hempty]
    have hle := countOf_le (g := n / 65536) (n := n)
    have hlast : ofNat (firstOf (n / 65536) + 256 * (countOf (n / 65536) n - 1))
        = ofNat n - 256 := by
      rw [show firstOf (n / 65536) + 256 * (countOf (n / 65536) n - 1) = n - 256 by omega]
      exact (ofNat_sub hlt (by omega)).symm
    rw [if_neg (fun hzero => hempty hzero.1), if_neg (by omega), if_neg hempty,
      hlast, if_neg (not_not.mpr rfl),
      if_neg (not_not.mpr (wantLen_eq hlt hnext))]
  obtain ⟨sm', c', m', hupdate, hholds', hupdated⟩ := updateOnMap_ok hwrites hholds hne (h n) hkeys hseq
    (ofNat_sub_one (by omega) hlt') (hinv.rolling.reads (by rw [length_rollingPage]; omega)) hrolling
    fun hzero => by
      rw [hkey]
      exact ⟨(hinv.historical _ hpage).reads (by rw [length_page]; exact countOf_le),
        hhistorical (haligned.mp hzero)⟩
  refine ⟨sm', c', m', hupdate, hholds', ?_, ?_⟩
  . rw [← rollingPage_succ hpos]
    exact hupdated.rolling.stored (by simp)
  intro g hg
  by_cases hself : n % 256 = 0 ∧ g = n / 65536
  . obtain ⟨hdvd, rfl⟩ := hself
    obtain ⟨hnext, hcount⟩ := countOf_of_dvd hpos hdvd
    rw [hcount, Nat.add_sub_cancel, page_succ, ← hnext, ← hkey]
    exact (hupdated.historical (haligned.mpr hdvd)).stored (by simp)
  have hcount : countOf g (n + 1) = countOf g n := countOf_succ_of_ne (by omega)
  rw [hcount]
  apply (hinv.historical g hg).of_eq
  apply hupdated.other _ (hkeys.rolling _)
  intro hzero heq
  rw [hkey] at heq
  exact hself ⟨haligned.mp hzero, hkeys.page_eq hg hpage heq⟩

theorem historicalHashOfSeq_ok (hholds : sm.Holds c m) (hinv : Inv h n m) (hn : n < 2 ^ 32)
    (hpos : 0 < seq.toNat) (hlt : seq.toNat < n)
    : historicalHashOfSeq sm seq
        = .ok (if seq.toNat % 256 = 0 then some (h seq.toNat) else none) := by
  unfold historicalHashOfSeq
  by_cases hdvd : seq.toNat % 256 = 0
  . obtain ⟨hcount, hfirst, hlast, hpage, haligned, hbefore⟩ := countOf_bounds hpos hdvd hlt
    obtain ⟨_, hread⟩ := (hinv.historical (seq.toNat / 65536) (by omega)).read hholds
      (by rw [length_page]; exact countOf_le)
    rw [length_page, if_neg (ne_of_gt hcount)] at hread
    generalize hL : firstOf (seq.toNat / 65536) + 256 * (countOf (seq.toNat / 65536) n - 1) = last
      at *
    have hlast32 : (ofNat last).toNat = last := toNat_ofNat_of_lt (by omega)
    have hend : ¬ (ofNat last &&& 0xff ≠ 0 ∨ ofNat last >>> 16 ≠ seq >>> 16) := by
      rw [not_or, not_not, not_not, and_ff_eq_zero_iff, ← toNat_inj, toNat_shiftRight_16,
        toNat_shiftRight_16, hlast32]
      exact ⟨haligned, hpage⟩
    have hstart : (if (ofNat last >>> 16) <<< 16 = 0 then (256 : UInt32)
        else (ofNat last >>> 16) <<< 16) = ofNat (firstOf (seq.toNat / 65536)) :=
      firstSeq_eq hlast32 hpage (by omega)
    have hstart32 : (ofNat (firstOf (seq.toNat / 65536))).toNat = firstOf (seq.toNat / 65536) :=
      toNat_ofNat_of_lt (by omega)
    have hwant : ((ofNat last - ofNat (firstOf (seq.toNat / 65536))) >>> 8).toNat + 1
        = countOf (seq.toNat / 65536) n := by
      rw [toNat_shiftRight_8, toNat_sub_of_le, hlast32, hstart32]
      . omega
      rw [le_iff_toNat_le, hlast32, hstart32]
      omega
    have hrange : seq ≥ ofNat (firstOf (seq.toNat / 65536)) ∧ seq ≤ ofNat last := by
      rw [ge_iff_le, le_iff_toNat_le, le_iff_toNat_le, hlast32, hstart32]
      exact ⟨hfirst, hlast⟩
    have hindex : ((seq - ofNat (firstOf (seq.toNat / 65536))) >>> 8).toNat
        = (seq.toNat - firstOf (seq.toNat / 65536)) / 256 := by
      rw [toNat_shiftRight_8, toNat_sub_of_le _ _ hrange.1, hstart32]
    have hself : firstOf (seq.toNat / 65536)
        + 256 * ((seq.toNat - firstOf (seq.toNat / 65536)) / 256) = seq.toNat := by
      unfold firstOf at *
      split at hL <;> split <;> omega
    rw [if_neg (not_not.mpr ((and_ff_eq_zero_iff seq).mpr hdvd)), histKey_of_seq, hread, if_pos hdvd]
    simp only [bind, Except.bind, length_page]
    rw [if_neg (ne_of_gt hcount), if_neg hend, hstart, hwant, if_neg (not_not.mpr rfl),
      if_pos hrange]
    unfold hashAt
    rw [hindex, getElem?_page _ _ _ (by omega), hself]
    rfl
  rw [if_pos (fun hzero => hdvd ((and_ff_eq_zero_iff seq).mp hzero)), if_neg hdvd]
  rfl

def Recorded (n s : Nat) : Prop :=
  (max 1 (n - 256) ≤ s ∧ s ≤ n) ∨ (0 < s ∧ s < n ∧ s % 256 = 0)

instance {n s : Nat} : Decidable (Recorded n s) := by
  unfold Recorded
  infer_instance

theorem rollingHashOfSeq_ok (hholds : sm.Holds c m) (hinv : Inv h n m) (hn : n < 2 ^ 32)
    {hash parentHash : Hash256} (hpos : 0 < seq.toNat) (hlt : seq.toNat + 1 < n)
    : ClosedLedger.hashOfSeq ⟨ofNat n, hash, parentHash, sm⟩ seq
        = .ok (if Recorded n seq.toNat then some (h seq.toNat) else none) := by
  have hpred : ofNat n - 1 = ofNat (n - 1) := ofNat_sub_one (by omega) hn
  have hn32 : (ofNat n).toNat = n := toNat_ofNat_of_lt hn
  have hlast32 : (ofNat (n - 1)).toNat = n - 1 := toNat_ofNat_of_lt (by omega)
  obtain ⟨_, hread⟩ := hinv.rolling.read hholds (by rw [length_rollingPage]; omega)
  rw [length_rollingPage, if_neg (by omega)] at hread
  have hinside : ¬ (seq = 0 ∨ seq > ofNat n) := by
    rw [gt_iff_lt, lt_iff_toNat_lt, ← toNat_inj, hn32]
    change ¬ (seq.toNat = 0 ∨ n < seq.toNat)
    omega
  have hself : seq ≠ ofNat n := by
    rw [Ne, ← toNat_inj, hn32]
    omega
  have hparent : seq ≠ ofNat (n - 1) := by
    rw [Ne, ← toNat_inj, hlast32]
    omega
  have hend : ¬ (ofNat n = 0 ∨ ofNat (n - 1) ≠ ofNat (n - 1)) := by
    rw [not_or, ← toNat_inj, hn32]
    exact ⟨by change n ≠ 0; omega, not_not.mpr rfl⟩
  have hcount32 : (ofNat (min (n - 1) 256)).toNat = min (n - 1) 256 :=
    toNat_ofNat_of_lt (by omega)
  have hfirst : (ofNat (n - 1) - ofNat (min (n - 1) 256) + 1).toNat
      = n - min (n - 1) 256 := by
    rw [UInt32.toNat_add, toNat_sub_of_le, hlast32, hcount32]
    . change (n - 1 - min (n - 1) 256 + 1) % 2 ^ 32 = _
      omega
    rw [le_iff_toNat_le, hlast32, hcount32]
    omega
  unfold ClosedLedger.hashOfSeq
  simp only
  rw [if_neg hinside, if_neg hself, hpred, if_neg hparent, hread]
  simp only [bind, Except.bind, length_rollingPage]
  rw [if_pos (by omega), if_neg hend, if_neg (by rw [hlast32]; exact not_not.mpr rfl)]
  by_cases hwindow : n - min (n - 1) 256 ≤ seq.toNat
  . have hrange : seq ≥ ofNat (n - 1) - ofNat (min (n - 1) 256) + 1
        ∧ seq ≤ ofNat (n - 1) := by
      rw [ge_iff_le, le_iff_toNat_le, le_iff_toNat_le, hlast32, hfirst]
      omega
    have hrecorded : Recorded n seq.toNat := .inl (by omega)
    rw [if_pos hrange, if_pos hrecorded]
    unfold hashAt rollingPage
    rw [toNat_sub_of_le _ _ hrange.1, hfirst, getElem?_page _ _ _ (by omega)]
    have hindex : n - min (n - 1) 256 + 1 * (seq.toNat - (n - min (n - 1) 256)) = seq.toNat := by
      omega
    rw [hindex]
    rfl
  have hrange : ¬ (seq ≥ ofNat (n - 1) - ofNat (min (n - 1) 256) + 1
      ∧ seq ≤ ofNat (n - 1)) := by
    rw [ge_iff_le, le_iff_toNat_le, le_iff_toNat_le, hlast32, hfirst]
    omega
  have hrecorded : seq.toNat % 256 = 0 ↔ Recorded n seq.toNat := by
    unfold Recorded
    omega
  rw [if_neg hrange, historicalHashOfSeq_ok hholds hinv hn hpos (by omega)]
  simp only [hrecorded]

theorem hashOfSeq_ok (hholds : sm.Holds c m) (hinv : Inv h n m) (hn : n < 2 ^ 32) (hone : 0 < n)
    (hparent : 1 < n → parentHash = h (n - 1)) (seq : UInt32)
    : ClosedLedger.hashOfSeq ⟨ofNat n, h n, parentHash, sm⟩ seq
        = .ok (if Recorded n seq.toNat then some (h seq.toNat) else none) := by
  have hpred : ofNat n - 1 = ofNat (n - 1) := ofNat_sub_one hone hn
  have hn32 : (ofNat n).toNat = n := toNat_ofNat_of_lt hn
  have hlast32 : (ofNat (n - 1)).toNat = n - 1 := toNat_ofNat_of_lt (by omega)
  have hzero : seq = 0 ↔ seq.toNat = 0 := by
    rw [← toNat_inj]
    rfl
  by_cases hout : seq = 0 ∨ seq > ofNat n
  . have hnot : ¬ Recorded n seq.toNat := by
      rw [hzero, gt_iff_lt, lt_iff_toNat_lt, hn32] at hout
      unfold Recorded
      omega
    unfold ClosedLedger.hashOfSeq
    simp only
    rw [if_pos hout, if_neg hnot]
    rfl
  rw [hzero, gt_iff_lt, lt_iff_toNat_lt, hn32, not_or, not_lt] at hout
  by_cases hwindow : seq.toNat + 1 < n
  . exact rollingHashOfSeq_ok hholds hinv hn (by omega) hwindow
  have hrecorded : Recorded n seq.toNat := .inl (by omega)
  have hinside : ¬ (seq = 0 ∨ seq > ofNat n) := by
    rw [hzero, gt_iff_lt, lt_iff_toNat_lt, hn32]
    omega
  unfold ClosedLedger.hashOfSeq
  simp only
  rw [if_neg hinside, if_pos hrecorded, hpred]
  by_cases hself : seq.toNat = n
  . rw [if_pos (toNat_inj.mp (hself.trans hn32.symm)), hself]
    rfl
  have hprev : seq.toNat = n - 1 := by omega
  have hne : seq ≠ ofNat n := by
    rw [Ne, ← toNat_inj, hn32]
    exact hself
  rw [if_neg hne, if_pos (toNat_inj.mp (hprev.trans hlast32.symm)), hparent (by omega),
    hprev]
  rfl

def Contains (sm : SHAMap) (m : SHAMap.Contents) : Prop :=
  ∃ c, SHAMap.Holds { sm with state := .modifying } c m

omit [LedgerHashesCodec] in
theorem Contains.get_eq (h : Contains sm m) (key : Hash256)
    : sm.get key = .ok ((m key).map fun data => { key, data }) := by
  obtain ⟨c, hholds⟩ := h
  exact hholds.get_eq key

structure Opens (prev sm : SHAMap) : Prop where
  holds : ∃ c m, sm.Holds c m
  keeps : ∀ key, SkipKey key → sm.get key = prev.get key

inductive Chain (h : Nat → Hash256) : Nat → ClosedLedger → Prop where
  | genesis {parentHash : Hash256} {sm : SHAMap} (contains : ∃ m, Contains sm m)
      (fresh : ∀ key, SkipKey key → sm.get key = .ok none) : Chain h 1 ⟨1, h 1, parentHash, sm⟩
  | close {n : Nat} {prev l : ClosedLedger} {sm : SHAMap} (chain : Chain h n prev)
      (opens : Opens prev.stateMap sm) (fits : n + 1 < 2 ^ 32)
      (closed : SkipList.close sm (ofNat (n + 1)) prev.hash (h (n + 1)) = .ok l)
      : Chain h (n + 1) l

structure Links (h : Nat → Hash256) (n : Nat) (l : ClosedLedger) : Prop where
  pos : 0 < n
  fits : n < 2 ^ 32
  ledgerIndex : l.ledgerIndex = ofNat n
  hash : l.hash = h n
  parentHash : 1 < n → l.parentHash = h (n - 1)
  lists : ∃ m, Contains l.stateMap m ∧ Inv h n m

theorem Inv.genesis (hfresh : ∀ key, SkipKey key → m key = none)
    : Inv h 1 m where
  rolling := .absent (hfresh _ (.inl rfl))
  historical g hg := by
    have hcount : countOf g 1 = 0 := by
      unfold countOf firstOf
      split_ifs <;> omega
    rw [hcount]
    exact .absent (hfresh _ (.inr ⟨g, hg, rfl⟩))

theorem Links.close {prev : ClosedLedger} (hwrites : Writes Plain) (hkeys : KeysApart)
    (hlinks : Links h n prev) (hopens : Opens prev.stateMap sm) (hfits : n + 1 < 2 ^ 32)
    : ∃ l, SkipList.close sm (ofNat (n + 1)) prev.hash (h (n + 1)) = .ok l
      ∧ Links h (n + 1) l := by
  obtain ⟨m, hcontains, hinv⟩ := hlinks.lists
  obtain ⟨c, m₁, hholds⟩ := hopens.holds
  have hagree : ∀ key, SkipKey key → m₁ key = m key := by
    intro key hkey
    have hget := hopens.keeps key hkey
    rw [hholds.get_eq, hcontains.get_eq, ok.injEq] at hget
    revert hget
    cases m₁ key <;> cases m key <;> simp
  obtain ⟨sm', c', m', hupdate, hholds', hinv'⟩ :=
    (hinv.of_agree hagree).update hwrites hholds hlinks.pos hlinks.fits hkeys hfits
  refine ⟨⟨ofNat (n + 1), h (n + 1), h n, { sm' with state := .immutable }⟩, ?_, ?_⟩
  . unfold SkipList.close setImmutable
    rw [hlinks.hash, hupdate]
    simp only [SHAMap.orWrap, bind, bind, hholds'.state]
    rfl
  have hopen : { sm' with state := .modifying } = sm' := by
    rw [← hholds'.state]
  exact {
    pos := succ_pos n
    fits := hfits
    ledgerIndex := rfl
    hash := rfl
    parentHash := fun _ => rfl
    lists := ⟨m', ⟨c', by rw [hopen]; exact hholds'⟩, hinv'⟩ }

theorem Chain.links (hwrites : Writes Plain) (hkeys : KeysApart) (hchain : Chain h n l)
    : Links h n l := by
  induction hchain with
  | genesis contains fresh =>
    obtain ⟨m, hcontains⟩ := contains
    refine ⟨one_pos, by omega, rfl, rfl, fun hlt => absurd hlt (lt_irrefl 1), m, hcontains,
      Inv.genesis ?_⟩
    intro key hkey
    have hget := fresh key hkey
    rw [hcontains.get_eq, ok.injEq, Option.map_eq_none_iff] at hget
    exact hget
  | close chain opens fits closed ih =>
    obtain ⟨l', hclose, hlinks⟩ := ih.close hwrites hkeys opens fits
    rw [closed, ok.injEq] at hclose
    exact hclose ▸ hlinks

theorem Links.hashOfSeq (hlinks : Links h n l) (seq : UInt32)
    : l.hashOfSeq seq = .ok (if Recorded n seq.toNat then some (h seq.toNat) else none) := by
  obtain ⟨m, hcontains, hinv⟩ := hlinks.lists
  obtain ⟨c, hholds⟩ := hcontains
  rw [← hashOfSeq_ok hholds hinv hlinks.fits hlinks.pos hlinks.parentHash seq, ← hlinks.ledgerIndex,
    ← hlinks.hash]
  rfl

theorem Chain.exists (hwrites : Writes Plain) (hkeys : KeysApart)
    : ∀ n, 0 < n → n < 2 ^ 32 → ∃ l, Chain h n l := by
  intro n hpos hfits
  induction n with
  | zero => omega
  | succ n ih =>
    by_cases hzero : n = 0
    . subst hzero
      refine ⟨⟨1, h 1, h 0, SHAMap.new .state⟩, ?_⟩
      have hcontains : Contains (SHAMap.new .state) fun _ => none :=
        ⟨_, SHAMap.holds_new .state⟩
      exact Chain.genesis ⟨_, hcontains⟩ fun key _ => hcontains.get_eq key
    obtain ⟨prev, hchain⟩ := ih (by omega) (by omega)
    have hlinks := hchain.links hwrites hkeys
    obtain ⟨m, hcontains, _⟩ := hlinks.lists
    obtain ⟨c, hholds⟩ := hcontains
    have hopens : Opens prev.stateMap { prev.stateMap with state := .modifying } :=
      ⟨⟨c, m, hholds⟩, fun _ _ => rfl⟩
    obtain ⟨l, hclose, _⟩ := hlinks.close hwrites hkeys hopens hfits
    exact ⟨l, hchain.close hopens hfits hclose⟩

/--
Every ledger of a chain finds the hashes of the ledgers around it and of every 256th before it.
-/
theorem reconstructs_chain (hwrites : Writes Plain) (hkeys : KeysApart) (hchain : Chain h n l)
    : (∀ seq : UInt32, l.hashOfSeq seq
        = .ok (if Recorded n seq.toNat then some (h seq.toNat) else none))
      ∧ ∀ next, Opens l.stateMap next → n + 1 < 2 ^ 32 →
        ∃ l', SkipList.close next (ofNat (n + 1)) l.hash (h (n + 1)) = .ok l' := by
  have hlinks := hchain.links hwrites hkeys
  refine ⟨hlinks.hashOfSeq, ?_⟩
  intro next hopens hfits
  obtain ⟨l', hclose, _⟩ := hlinks.close hwrites hkeys hopens hfits
  exact ⟨l', hclose⟩

end

namespace Sample

-- A hash that keeps the length of its argument and what follows the two bytes of the space
abbrev sha512Half : Sha512Half where
  sum data := Vector.ofFn fun i =>
    if i.val = 0 then UInt8.ofNat data.length else data.getD (i.val + 1) 0

attribute [local instance] sha512Half

theorem getElem_key (seq : UInt32) (hi : i < 32)
    : (ledgerHashesForSeq seq).key[i]
        = if i = 0 then (6 : UInt8) else (putUint32 (seq >>> 16)).getD (i - 1) 0 := by
  change (Vector.ofFn _)[i] = _
  rw [Vector.getElem_ofFn]
  cases i <;> rfl

theorem keysApart : KeysApart where
  rolling seq h := by
    have hlength : (ledgerHashesForSeq seq).key[0] = ledgerHashes.key[0] := by rw [h]
    rw [getElem_key, if_pos rfl] at hlength
    revert hlength
    decide
  historical seq seq' h := by
    have hbyte : ∀ i, i < 4 → (putUint32 (seq >>> 16)).getD i 0 = (putUint32 (seq' >>> 16)).getD i 0 := by
      intro i hi
      have hget : (ledgerHashesForSeq seq).key[i + 1]
          = (ledgerHashesForSeq seq').key[i + 1] := by rw [h]
      rw [getElem_key, getElem_key] at hget
      exact hget
    apply putUint32_injective
    have h₀ := hbyte 0 (by omega)
    have h₁ := hbyte 1 (by omega)
    have h₂ := hbyte 2 (by omega)
    have h₃ := hbyte 3 (by omega)
    simp only [putUint32, getD_cons_zero, getD_cons_succ] at h₀ h₁ h₂ h₃
    simp only [putUint32, h₀, h₁, h₂, h₃]

def getUint32 (data : List UInt8) : UInt32 :=
  ofNat (data.foldl (fun n b => 256 * n + b.toNat) 0)

theorem getUint32_putUint32 (n : UInt32) : getUint32 (putUint32 n) = n := by
  have hlt := n.toNat_lt
  apply toNat_inj.mp
  simp [getUint32, putUint32, shiftRight_eq_div_pow]
  omega

def readHashes : Nat → List UInt8 → List Hash256
  | 0, _ => []
  | n + 1, data => Vector.ofFn (fun i => data.getD i 0) :: readHashes n (data.drop 32)

theorem readHashes_flatMap (hashes : List Hash256)
    : readHashes hashes.length (hashes.flatMap (·.toList)) = hashes := by
  induction hashes with
  | nil => rfl
  | cons hash hashes ih =>
    have hhead : Vector.ofFn (fun i : Fin 32 =>
        (hash.toList ++ hashes.flatMap (·.toList)).getD i 0) = hash := by
      apply Vector.ext
      intro i hi
      rw [Vector.getElem_ofFn, getD_eq_getElem?_getD,
        getElem?_append_left (by rw [Vector.length_toList]; exact hi)]
      simp [hi]
    rw [length_cons, flatMap_cons, readHashes, hhead,
      drop_left' (Vector.length_toList), ih]

-- The fields before the hashes take 13 bytes.
abbrev codec : LedgerHashesCodec where
  encodeEntry fields hashes :=
    some (putUint32 fields.flags ++ (fields.lastLedgerSequence.elim 0 (fun _ => 1) :: 0 :: 0 :: 0 :: 0
      :: putUint32 (fields.lastLedgerSequence.getD 0)) ++ hashes.flatMap (·.toList))
  decodeLedgerHashes data :=
    some (⟨getUint32 (data.take 4), none,
      if data.getD 4 0 = 0 then none else some (getUint32 ((data.drop 9).take 4)), none⟩,
      readHashes ((data.length - 13) / 32) (data.drop 13))

attribute [local instance] codec

theorem codec_writes_plain : Writes Plain := by
  rintro fields hashes ⟨hfirst, hsponsor⟩ _ _
  refine ⟨_, rfl, by simp [putUint32], ?_⟩
  have hlength : (hashes.flatMap (·.toList)).length = 32 * hashes.length := by
    simp [length_flatMap, mul_comm]
  have hread := readHashes_flatMap hashes
  generalize hashes.flatMap (·.toList) = rest at hlength hread
  change some (LedgerHashesFields.mk (getUint32 (putUint32 fields.flags)) none
      (if (fields.lastLedgerSequence.elim 0 fun _ => 1 : UInt8) = 0 then none
        else some (getUint32 (putUint32 (fields.lastLedgerSequence.getD 0)))) none,
      readHashes ((rest.length + 13 - 13) / 32) rest) = _
  have hcount : (rest.length + 13 - 13) / 32 = hashes.length := by omega
  rw [getUint32_putUint32, getUint32_putUint32, hcount, hread]
  rcases fields with ⟨flags, first, last, sponsor⟩
  subst hfirst hsponsor
  cases last <;> rfl

def hashOf (n : Nat) : Hash256 := Vector.replicate 32 (UInt8.ofNat n)

theorem hashes_found
    : ∃ l, Chain hashOf 600 l ∧ l.hashOfSeq 599 = .ok (some (hashOf 599))
      ∧ l.hashOfSeq 344 = .ok (some (hashOf 344)) ∧ l.hashOfSeq 343 = .ok none
      ∧ l.hashOfSeq 256 = .ok (some (hashOf 256)) := by
  obtain ⟨l, hchain⟩ := Chain.exists codec_writes_plain keysApart 600 (by omega) (by omega)
  have hfound := (reconstructs_chain codec_writes_plain keysApart hchain).1
  exact ⟨l, hchain, hfound 599, hfound 344, hfound 343, hfound 256⟩

end Sample

end SkipList
