import GoXrpl.SkipList.Impl.SkipList
import GoXrpl.SHAMap.Refinement

open State List

namespace SkipList

theorem toNat_and_ff (x : UInt32) : (x &&& 0xff).toNat = x.toNat % 256 := by
  rw [UInt32.toNat_and]
  exact Nat.and_two_pow_sub_one_eq_mod _ 8

theorem toNat_and_ffff (x : UInt32) : (x &&& 0xffff).toNat = x.toNat % 65536 := by
  rw [UInt32.toNat_and]
  exact Nat.and_two_pow_sub_one_eq_mod _ 16

theorem toNat_shiftRight_8 (x : UInt32) : (x >>> 8).toNat = x.toNat / 256 := by
  rw [UInt32.toNat_shiftRight]
  exact Nat.shiftRight_eq_div_pow _ 8

theorem toNat_shiftRight_16 (x : UInt32) : (x >>> 16).toNat = x.toNat / 65536 := by
  rw [UInt32.toNat_shiftRight]
  exact Nat.shiftRight_eq_div_pow _ 16

theorem toNat_shift_16 (x : UInt32) : ((x >>> 16) <<< 16).toNat = x.toNat / 65536 * 65536 := by
  have hlt := x.toNat_lt
  rw [UInt32.toNat_shiftLeft, toNat_shiftRight_16]
  change (x.toNat / 65536) <<< 16 % 2 ^ 32 = _
  rw [Nat.shiftLeft_eq, Nat.mod_eq_of_lt (by omega)]

theorem and_ff_eq_zero_iff (x : UInt32) : x &&& 0xff = 0 ↔ x.toNat % 256 = 0 := by
  rw [← UInt32.toNat_inj, toNat_and_ff]
  rfl

theorem toNat_ofNat_of_lt (h : n < 2 ^ 32) : (UInt32.ofNat n).toNat = n := by
  rw [UInt32.toNat_ofNat']
  exact Nat.mod_eq_of_lt h

def page (h : Nat → Hash256) (first step count : Nat) : List Hash256 :=
  (range count).map fun i => h (first + step * i)

section Page

variable (h : Nat → Hash256) (first step count : Nat)

@[simp]
theorem length_page : (page h first step count).length = count := by
  simp [page]

theorem page_succ
    : page h first step (count + 1) = page h first step count ++ [h (first + step * count)] := by
  simp [page, range_succ]

theorem tail_page : (page h first step (count + 1)).tail = page h (first + step) step count := by
  unfold page
  rw [range_succ_eq_map, map_cons, tail_cons, map_map]
  congr 1
  funext i
  simp only [Function.comp_apply, Nat.succ_eq_add_one]
  congr 1
  rw [Nat.mul_add, Nat.mul_one]
  omega

variable {count} in
theorem getElem?_page (hi : i < count)
    : (page h first step count)[i]? = some (h (first + step * i)) := by
  simp [page, hi]

end Page

theorem checkLedgerHashes_eq_ok {read : List Hash256}
    : checkLedgerHashes entry read = .ok (fields, hashes, last)
        ↔ entry.lastLedgerSequence = some last ∧ ¬ (read.length = 0 ∨ read.length > 256)
          ∧ (entry.firstLedgerSequence.any fun first => first = 0 ∨ first > last) = false
          ∧ some entry = fields ∧ read = hashes := by
  unfold checkLedgerHashes
  cases entry.lastLedgerSequence with
  | none => simp
  | some last =>
    rw [Option.elim_some]
    split
    . next hlength => simp only [reduceCtorEq, hlength, not_true_eq_false, false_and, and_false]
    . split <;> grind

variable [LedgerHashesCodec]

inductive Stored (m : SHAMap.Contents) (key : Hash256) : List Hash256 → Nat → Prop where
  | absent {last : Nat} (entry : m key = none) : Stored m key [] last
  | present {data : List UInt8} {fields : LedgerHashesFields} {hashes : List Hash256} {last : Nat}
      (entry : m key = some data) (nonempty : 0 < hashes.length)
      (decode : LedgerHashesCodec.decodeLedgerHashes data = some (fields, hashes))
      (last_eq : fields.lastLedgerSequence = some (UInt32.ofNat last))
      (first_eq : fields.firstLedgerSequence = none) (sponsor_eq : fields.sponsor = none)
      : Stored m key hashes last

def Writes (P : Option UInt32 → Option (List UInt8) → Prop) : Prop :=
  ∀ (fields : LedgerHashesFields) (hashes : List Hash256),
    P fields.firstLedgerSequence fields.sponsor → 0 < hashes.length → hashes.length ≤ 256 →
    ∃ data, LedgerHashesCodec.encodeEntry fields hashes = some data ∧ 12 ≤ data.length
      ∧ LedgerHashesCodec.decodeLedgerHashes data = some (fields, hashes)

def readEntry (m : SHAMap.Contents) (key : Hash256)
    : Except Error (Option LedgerHashesFields × List Hash256 × UInt32) :=
  (m key).elim (.ok (none, [], 0)) fun data =>
    (LedgerHashesCodec.decodeLedgerHashes data).elim (.error (.new "decode LedgerHashes"))
      fun decoded => checkLedgerHashes decoded.1 decoded.2

theorem readEntry_cases (h : readEntry m key = .ok (fields, hashes, last))
    : (m key = none ∧ fields = none ∧ hashes = [] ∧ last = 0)
      ∨ ∃ data entry, m key = some data ∧ fields = some entry
        ∧ LedgerHashesCodec.decodeLedgerHashes data = some (entry, hashes)
        ∧ entry.lastLedgerSequence = some last ∧ ¬ (hashes.length = 0 ∨ hashes.length > 256)
        ∧ (entry.firstLedgerSequence.any fun first => first = 0 ∨ first > last) = false := by
  unfold readEntry at h
  cases hm : m key with
  | none =>
    rw [hm] at h
    cases h
    exact .inl ⟨rfl, rfl, rfl, rfl⟩
  | some data =>
    rw [hm, Option.elim_some] at h
    cases hdecode : LedgerHashesCodec.decodeLedgerHashes data with
    | none =>
      rw [hdecode] at h
      cases h
    | some decoded =>
      rw [hdecode, Option.elim_some, checkLedgerHashes_eq_ok] at h
      obtain ⟨hlast, hlength, hfirst, rfl, rfl⟩ := h
      exact .inr ⟨data, decoded.1, rfl, rfl, hdecode, hlast, hlength, hfirst⟩

theorem any_first (hread : readEntry m key = .ok (fields, hashes, last)) (hle : last ≤ last')
    : ((fields.bind (·.firstLedgerSequence)).any fun first => first = 0 ∨ first > last') = false := by
  rcases readEntry_cases hread with ⟨_, rfl, _⟩ | ⟨_, entry, _, rfl, _, _, _, hfirst⟩
  . rfl
  rw [Option.bind_some]
  cases hentry : entry.firstLedgerSequence with
  | none => rfl
  | some first =>
    rw [hentry] at hfirst
    simp only [Option.any_some, decide_eq_false_iff_not, not_or, gt_iff_lt, UInt32.not_lt]
      at hfirst ⊢
    exact ⟨hfirst.1, UInt32.le_trans hfirst.2 hle⟩

/--
The entry under `key` is absent or reads as these hashes, with optional fields in `P`.
-/
def Reads (P : Option UInt32 → Option (List UInt8) → Prop) (m : SHAMap.Contents) (key : Hash256)
    (hashes : List Hash256) (last : UInt32) : Prop :=
  ∃ fields, readEntry m key = .ok (fields, hashes, last)
    ∧ P (fields.bind (·.firstLedgerSequence)) (fields.bind (·.sponsor))

def Plain (first : Option UInt32) (sponsor : Option (List UInt8)) : Prop := first = none ∧ sponsor = none

theorem Stored.of_eq (h : Stored m key hashes last) (heq : m' key = m key)
    : Stored m' key hashes last := by
  cases h with
  | absent entry => exact .absent (heq.trans entry)
  | present entry nonempty decode last_eq first_eq sponsor_eq =>
    exact .present (heq.trans entry) nonempty decode last_eq first_eq sponsor_eq

theorem Stored.reads {last : Nat} (h : Stored m key hashes last) (hlength : hashes.length ≤ 256)
    : Reads Plain m key hashes (if hashes.length = 0 then 0 else UInt32.ofNat last) := by
  cases h with
  | absent entry => exact ⟨none, by rw [readEntry, entry]; rfl, rfl, rfl⟩
  | present entry nonempty decode last_eq first_eq sponsor_eq =>
    have hnot : ¬ (hashes.length = 0 ∨ hashes.length > 256) := by omega
    refine ⟨some _, ?_, first_eq, sponsor_eq⟩
    rw [readEntry, entry, Option.elim_some, decode, Option.elim_some, checkLedgerHashes_eq_ok,
      if_neg (not_or.mp hnot).1, first_eq]
    exact ⟨last_eq, hnot, rfl, rfl, rfl⟩

theorem Reads.stored (h : Reads Plain m key hashes (UInt32.ofNat last))
    (hnonempty : 0 < hashes.length)
    : Stored m key hashes last := by
  obtain ⟨_, hread, hfirst, hsponsor⟩ := h
  rcases readEntry_cases hread with ⟨_, _, rfl, _⟩ | ⟨_, _, hm, rfl, hdecode, hlast, _⟩
  . cases hnonempty
  . exact .present hm hnonempty hdecode hlast hfirst hsponsor

theorem encode_reads (hwrites : Writes P) (hread : readEntry m key = .ok (fields, hashes, last))
    (hfields : P (fields.bind (·.firstLedgerSequence)) (fields.bind (·.sponsor))) (hle : last ≤ last')
    {kept : List Hash256} (hlength : kept.length < 256) (hash : Hash256)
    : ∃ data, encode fields (kept ++ [hash]) last' = .ok data ∧ 12 ≤ data.length
      ∧ ∀ m' : SHAMap.Contents, m' key = some data → Reads P m' key (kept ++ [hash]) last' := by
  have hlength' : (kept ++ [hash]).length = kept.length + 1 := by simp
  obtain ⟨data, hencode, hlong, hdecode⟩ := hwrites {
    flags := fields.elim 0 (·.flags)
    firstLedgerSequence := fields.bind (·.firstLedgerSequence)
    lastLedgerSequence := some last'
    sponsor := fields.bind (·.sponsor) } (kept ++ [hash]) hfields (by omega) (by omega)
  refine ⟨data, by simp [encode, hencode], hlong, ?_⟩
  intro m' hkey
  refine ⟨some ⟨fields.elim 0 (·.flags), _, some last', _⟩, ?_, hfields⟩
  rw [readEntry, hkey, Option.elim_some, hdecode, Option.elim_some, checkLedgerHashes_eq_ok]
  exact ⟨rfl, by dsimp only; omega, any_first hread hle, rfl, rfl⟩

theorem readLedgerHashesSLE_eq (hget : sm.get key = .ok ((m key).map fun data => { key, data }))
    : readLedgerHashesSLE sm key = readEntry m key := by
  unfold readLedgerHashesSLE readEntry
  rw [hget]
  cases m key <;> rfl

theorem Stored.read [Sha512Half]
    (hholds : sm.Holds c m) (h : Stored m key hashes last) (hlength : hashes.length ≤ 256)
    : ∃ fields, readLedgerHashesSLE sm key
        = .ok (fields, hashes, if hashes.length = 0 then 0 else UInt32.ofNat last) := by
  rw [readLedgerHashesSLE_eq (hholds.get_eq _)]
  obtain ⟨fields, hread, _⟩ := h.reads hlength
  exact ⟨fields, hread⟩

end SkipList
