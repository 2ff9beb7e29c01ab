import GoXrpl.Base58.Impl.Base58
import GoXrpl.Positional.Recode

open List Nat

namespace Base58

open Positional

def Valid (s : List UInt8) : Prop := ∀ c ∈ s, b58 c ≠ 255

def indices (s : List UInt8) : List Nat := s.map fun c => (b58 c).toNat

theorem b58_spec (c : UInt8) (hc : b58 c ≠ 255) : (b58 c).toNat < 58 ∧ digit (b58 c).toNat = c := by
  have hall : ∀ n < 256, b58 (UInt8.ofNat n) ≠ 255 →
      (b58 (UInt8.ofNat n)).toNat < 58 ∧ digit (b58 (UInt8.ofNat n)).toNat = UInt8.ofNat n := by
    decide +kernel
  have h := hall c.toNat c.toNat_lt
  rw [UInt8.ofNat_toNat] at h
  exact h hc

theorem b58_digit (hd : d < 58) : (b58 (digit d)).toNat = d ∧ b58 (digit d) ≠ 255 := by
  have hall : ∀ d < 58, (b58 (digit d)).toNat = d ∧ b58 (digit d) ≠ 255 := by decide +kernel
  exact hall d hd

theorem valid_of_alphabet (hs : ∀ c ∈ s, c ∈ xrpAlphabet) : Valid s := by
  have hall : ∀ c ∈ xrpAlphabet, b58 c ≠ 255 := by decide +kernel
  exact fun c hc => hall c (hs c hc)

theorem lastChunk_eq (m : Nat) : lastChunk m = (digits 58 m).map digit := by
  induction m using Nat.strongRecOn with
  | ind m ih =>
    rw [lastChunk]
    split
    . next hm =>
      rw [digits_def' (by decide) hm, map_cons, ih _ (div_lt_self hm (by decide))]
    . next hm =>
      have hzero : m = 0 := by omega
      rw [hzero, digits_zero]
      rfl

theorem fullChunk_eq (k m : Nat) : fullChunk k m = (fixedDigits 58 k m).map digit := by
  induction k generalizing m with
  | zero => rfl
  | succ k ih => rw [fullChunk, fixedDigits, map_cons, ih]

theorem chunks_eq (x : Nat) : chunks x = (digits 58 x).map digit := by
  induction x using Nat.strongRecOn with
  | ind x ih =>
    rw [chunks]
    dsimp only
    have hsplit := mod_add_div x (58 ^ 10)
    split
    . next hx =>
      split
      . next hq =>
        rw [hq, mul_zero, add_zero] at hsplit
        rw [lastChunk_eq, hsplit]
      . next hq =>
        rw [fullChunk_eq, ih _ (div_lt_self hx (by decide)), ← map_append,
          ← digits_add_pow_mul (by decide) 10 (mod_lt x (by decide)) (pos_of_ne_zero hq),
          hsplit]
    . next hx =>
      have hzero : x = 0 := by omega
      rw [hzero, digits_zero]
      rfl

theorem setBytes_eq (b : List UInt8) : setBytes b = value 256 (b.map UInt8.toNat) := by
  rw [setBytes, value, foldl_map]

theorem zeros_toNat (b : List UInt8)
    : zeros (b.map UInt8.toNat) = (b.takeWhile (· = 0)).length := by
  unfold zeros
  rw [takeWhile_map, length_map]
  congr 2
  funext i
  simp [← UInt8.toNat_inj]

theorem encodeBase58_eq (b : List UInt8)
    : encodeBase58 b = (recode 256 58 (b.map UInt8.toNat)).map digit := by
  rw [encodeBase58, recode, chunks_eq, setBytes_eq, reverse_append, map_const',
    reverse_replicate, map_append, map_replicate, map_reverse, zeros_toNat]
  rfl

theorem foldl_indices (s : List UInt8) (x : Nat)
    : (indices s).foldl (fun x d => x * 58 + d) x
        = s.foldl (fun x c => x * 58 + (b58 c).toNat) x := by
  rw [indices, foldl_map]

theorem chunkTotal_valid (hs : Valid s) (x : Nat)
    : chunkTotal x s = some ((indices s).foldl (fun x d => x * 58 + d) x) := by
  rw [foldl_indices]
  induction s generalizing x with
  | nil => rfl
  | cons c s ih =>
    rw [chunkTotal, if_neg (hs c mem_cons_self), ih fun d hd => hs d (mem_cons_of_mem c hd)]
    rfl

theorem chunkTotal_invalid (hs : ¬ Valid s) (x : Nat) : chunkTotal x s = none := by
  induction s generalizing x with
  | nil =>
    exfalso
    apply hs
    intro c hc
    cases hc
  | cons c s ih =>
    rw [chunkTotal]
    split
    . rfl
    . next hc =>
      apply ih
      intro hrest
      apply hs
      intro d hd
      rcases mem_cons.mp hd with rfl | hd
      . exact hc
      . exact hrest d hd

theorem valid_append : Valid (s ++ t) ↔ Valid s ∧ Valid t :=
  forall_mem_append

theorem value_indices_split (s : List UInt8) (n : Nat)
    : value 58 (indices s)
        = value 58 (indices (s.take n)) * 58 ^ (s.drop n).length + value 58 (indices (s.drop n)) := by
  have hsplit : indices s = indices (s.take n) ++ indices (s.drop n) := by
    unfold indices
    rw [← map_append, take_append_drop]
  rw [hsplit, value_append]
  unfold indices
  rw [length_map]

theorem decodeChunks_valid (hs : Valid s) (answer : Nat)
    : decodeChunks answer s = some (answer * 58 ^ s.length + value 58 (indices s)) := by
  induction hlen : s.length using Nat.strongRecOn generalizing s answer with
  | ind len ih =>
    rw [decodeChunks]
    split
    . next hpos =>
      dsimp only
      have hvalid : Valid (s.take (min s.length 10)) ∧ Valid (s.drop (min s.length 10)) := by
        rw [← valid_append, take_append_drop]
        exact hs
      have hdrop : (s.drop (min s.length 10)).length + min s.length 10 = s.length := by
        rw [length_drop]
        omega
      have hpow : 58 ^ s.length = 58 ^ min s.length 10 * 58 ^ (s.drop (min s.length 10)).length := by
        rw [← pow_add, add_comm, hdrop]
      rw [chunkTotal_valid hvalid.1]
      dsimp only
      rw [ih _ (by omega) hvalid.2 _ rfl, value_indices_split s (min s.length 10), bigRadix,
        if_neg (by omega), ← hlen, hpow, ← value]
      congr 1
      ring
    . next hpos =>
      have hnil : s = [] := length_eq_zero_iff.mp (by omega)
      subst hnil
      subst hlen
      simp [indices, value]

theorem decodeChunks_invalid (hs : ¬ Valid s) (answer : Nat) : decodeChunks answer s = none := by
  induction hlen : s.length using Nat.strongRecOn generalizing s answer with
  | ind len ih =>
    rw [decodeChunks]
    split
    . next hpos =>
      dsimp only
      by_cases htake : Valid (s.take (min s.length 10))
      . rw [chunkTotal_valid htake]
        apply ih _ _ _ _ rfl
        . rw [length_drop]
          omega
        intro hdrop
        apply hs
        rw [← take_append_drop (min s.length 10) s, valid_append]
        exact ⟨htake, hdrop⟩
      . rw [chunkTotal_invalid htake]
    . next hpos =>
      exfalso
      apply hs
      rw [length_eq_zero_iff.mp (show s.length = 0 by omega)]
      intro c hc
      cases hc

theorem b58_eq_zero_iff (hc : b58 c ≠ 255) : (b58 c).toNat = 0 ↔ c = alphabetIdx0 := by
  constructor
  . intro h
    rw [← (b58_spec c hc).2, h]
    rfl
  rintro rfl
  rfl

theorem zeros_indices (hs : Valid s)
    : zeros (indices s) = (s.takeWhile (· = alphabetIdx0)).length := by
  induction s with
  | nil => rfl
  | cons c s ih =>
    have hrest := ih fun d hd => hs d (mem_cons_of_mem c hd)
    unfold zeros indices at hrest ⊢
    rw [map_cons, takeWhile_cons, takeWhile_cons]
    simp only [b58_eq_zero_iff (hs c mem_cons_self)]
    split
    . rw [length_cons, length_cons, hrest]
    . rfl

theorem decodeBase58_eq (hs : Valid s)
    : decodeBase58 s = (recode 58 256 (indices s)).map UInt8.ofNat := by
  rw [decodeBase58, decodeChunks_valid hs, zero_mul, zero_add]
  dsimp only
  rw [bytes, recode, zeros_indices hs, map_const', map_append, map_replicate,
    map_reverse]
  rfl

theorem valid_of_decodeBase58 (h : decodeBase58 s ≠ []) : Valid s := by
  by_contra hs
  apply h
  rw [decodeBase58, decodeChunks_invalid hs]

theorem valid_encodeBase58 (b : List UInt8) : Valid (encodeBase58 b) := by
  rw [encodeBase58_eq]
  intro c hc
  obtain ⟨d, hd, rfl⟩ := mem_map.mp hc
  exact (b58_digit (lt_of_mem_recode (by decide) hd)).2

theorem indices_encodeBase58 (b : List UInt8)
    : indices (encodeBase58 b) = recode 256 58 (b.map UInt8.toNat) := by
  rw [encodeBase58_eq, indices, map_map]
  nth_rewrite 2 [← map_id (recode 256 58 (b.map UInt8.toNat))]
  apply map_congr_left
  intro d hd
  exact (b58_digit (lt_of_mem_recode (by decide) hd)).1

theorem decode_encode (b : List UInt8) : decodeBase58 (encodeBase58 b) = b := by
  rw [decodeBase58_eq (valid_encodeBase58 b), indices_encodeBase58, recode_recode (by decide),
    map_map]
  . nth_rewrite 2 [← map_id b]
    apply map_congr_left
    intro i _
    exact UInt8.ofNat_toNat
  intro d hd
  obtain ⟨i, _, rfl⟩ := mem_map.mp hd
  exact i.toNat_lt

theorem encode_decode (hs : Valid s) : encodeBase58 (decodeBase58 s) = s := by
  have hbytes : (decodeBase58 s).map UInt8.toNat = recode 58 256 (indices s) := by
    rw [decodeBase58_eq hs, map_map]
    nth_rewrite 2 [← map_id (recode 58 256 (indices s))]
    apply map_congr_left
    intro d hd
    exact UInt8.toNat_ofNat_of_lt' (lt_of_mem_recode (by decide) hd)
  rw [encodeBase58_eq, hbytes, recode_recode (by decide), indices, map_map]
  . nth_rewrite 2 [← map_id s]
    apply map_congr_left
    intro c hc
    exact (b58_spec c (hs c hc)).2
  intro d hd
  obtain ⟨c, hc, rfl⟩ := mem_map.mp hd
  exact (b58_spec c (hs c hc)).1

section Check

variable [Sha256]

theorem length_checksum (input : List UInt8) : (checksum input).length = 4 := by
  simp [checksum]

theorem checkDecode_checkEncode (x pre : List UInt8) (hne : pre ++ x ≠ [])
    : base58CheckDecode (base58CheckEncode x pre) = .ok (pre ++ x) := by
  have hpos := length_pos_iff.mpr hne
  have hlength : (pre ++ x ++ checksum (pre ++ x)).length = (pre ++ x).length + 4 := by
    rw [length_append, length_checksum]
  unfold base58CheckDecode base58CheckEncode
  dsimp only
  rw [decode_encode, hlength, if_neg (by omega), Nat.add_sub_cancel, take_left,
    drop_left, if_neg (fun h => h rfl)]

theorem eq_checkEncode_of_checkDecode (h : base58CheckDecode s = .ok result)
    : s = base58CheckEncode result [] := by
  unfold base58CheckDecode at h
  dsimp only at h
  split at h
  . cases h
  . next hlength =>
    split at h
    . cases h
    . next hsum =>
      cases h
      have hvalid : Valid s := by
        apply valid_of_decodeBase58
        intro hnil
        rw [hnil] at hlength
        exact hlength (by decide)
      rw [ne_eq, Decidable.not_not] at hsum
      unfold base58CheckEncode
      dsimp only
      rw [nil_append, hsum, take_append_drop, encode_decode hvalid]

/--
Byte strings and strings over the alphabet encode each other, and with a checksum what is accepted is
what has been encoded.
-/
theorem base58_bijection
    : (∀ b, decodeBase58 (encodeBase58 b) = b)
        ∧ (∀ s, (∀ c ∈ s, c ∈ xrpAlphabet) → encodeBase58 (decodeBase58 s) = s)
        ∧ (∀ x pre, pre ++ x ≠ [] → base58CheckDecode (base58CheckEncode x pre) = .ok (pre ++ x))
        ∧ ∀ s result, base58CheckDecode s = .ok result → s = base58CheckEncode result [] := by
  refine ⟨decode_encode, ?_, checkDecode_checkEncode, ?_⟩
  . intro s hs
    exact encode_decode (valid_of_alphabet hs)
  intro s result h
  exact eq_checkEncode_of_checkDecode h

end Check

namespace Sample

@[reducible]
def sha256 : Sha256 where
  sum256 input := (Vector.replicate 32 0).set 0 input.length.toUInt8 (zero_lt_succ 31)

attribute [local instance] sha256

def zeroDigits : List UInt8 := [alphabetIdx0, alphabetIdx0]

theorem base58_bijection_sample
    : encodeBase58 (decodeBase58 zeroDigits) = zeroDigits
        ∧ base58CheckDecode (base58CheckEncode [0, 7] [0]) = .ok [0, 0, 7]
        ∧ base58CheckEncode [0, 0, 7] [] = base58CheckEncode [0, 7] [0] := by
  obtain ⟨_, hencode, hcheck, haccept⟩ := base58_bijection
  have hok := hcheck [0, 7] [0] (by decide)
  exact ⟨hencode zeroDigits (by decide +kernel), hok, (haccept _ _ hok).symm⟩

end Sample

end Base58
