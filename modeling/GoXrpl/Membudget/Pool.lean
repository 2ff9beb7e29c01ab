import GoXrpl.Membudget.Lemmas.Pool

open AList Membudget.Checked

namespace Membudget

open Accounting

namespace Pool

variable {p : Pool}

-- What a call that frees no byte does to the accounts.
inductive Raised (m : AList fun _ : String => Account) : (AList fun _ : String => Account) → Prop
  | same : Raised m m
  | set {name : String} {a a' : Account} (ha : m.lookup name = some a) (hmin : a'.minimum = a.minimum)
    (hmax : a'.maximum = a.maximum) (hused : a.used.toNat ≤ a'.used.toNat)
    : Raised m (m.insert name a')
  | add {name : String} {a : Account} (hnew : name ∉ m) : Raised m (m.insert name a)

inductive Moved (m : AList fun _ : String => Account) (name dst : String) (bytes : UInt64)
    : (AList fun _ : String => Account) → Prop
  | move {a d d' : Account} (ha : m.lookup name = some a) (hd : m.lookup dst = some d)
    (hne : name ≠ dst) (hzero : bytes ≠ 0) (hbytes : bytes ≤ a.used)
    (hmin : d'.minimum = d.minimum) (hmax : d'.maximum = d.maximum)
    (hused : d'.used.toNat = d.used.toNat + bytes.toNat)
    : Moved m name dst bytes ((m.insert name { a with used := a.used - bytes }).insert dst d')

theorem Inv.add {p' : Pool} (h : p.Inv) (hnew : name ∉ p.accounts)
    (haccounts : p'.accounts = p.accounts.insert name a) (hlimit : p'.limit = p.limit)
    (hused : p'.used = p.used) (hpeak : p'.peak = p.peak) (hzero : a.used = 0)
    (hordered : a.minimum.toNat ≤ a.maximum.toNat)
    (hminimum : p'.minimum.toNat = p.minimum.toNat + a.minimum.toNat)
    (hunused : p'.unusedMinimum.toNat = p.unusedMinimum.toNat + a.minimum.toNat)
    (hprotected : p.minimum.toNat + a.minimum.toNat ≤ p.limit.toNat)
    (hshared : p.used.toNat + p.unusedMinimum.toNat + a.minimum.toNat ≤ p.limit.toNat)
    : p'.Inv := by
  have hsum : ∀ f : String → Account → Nat, sum f p'.accounts = f name a + sum f p.accounts := by
    intro f
    rw [haccounts, sum_insert, erase_eq_self hnew]
  have hlookup : ∀ name' b, p'.accounts.lookup name' = some b →
      b = a ∨ p.accounts.lookup name' = some b := by
    intro name' b hb
    rw [haccounts] at hb
    exact (Assoc.lookup_insert_cases hb).imp_left And.right
  have hzero' : a.used.toNat = 0 := by
    rw [hzero]
    rfl
  exact {
    used_eq := by
      rw [hused, h.used_eq, hsum]
      omega
    unused_eq := by
      rw [hunused, h.unused_eq, hsum]
      omega
    minimum_eq := by
      rw [hminimum, h.minimum_eq, hsum]
      omega
    limit := by
      rw [hused, hlimit]
      omega
    minimum_le := by
      rw [hlimit]
      omega
    within := by
      intro name' b hb
      rcases hlookup name' b hb with rfl | hb
      . omega
      . exact h.within name' b hb
    ordered := by
      intro name' b hb
      rcases hlookup name' b hb with rfl | hb
      . exact hordered
      . exact h.ordered name' b hb
    peak := by
      rw [hused, hpeak]
      exact h.peak
    peaks := by
      intro name' b hb
      rcases hlookup name' b hb with rfl | hb
      . omega
      . exact h.peaks name' b hb }

theorem Inv.newAccount (h : p.Inv) (name : String) (minimum maximum : UInt64)
    : ∃ r, p.newAccount name minimum maximum = pure r
      ∧ ∀ q, r = .ok q → q.Inv ∧ q.limit = p.limit ∧ Raised p.accounts q.accounts := by
  have hlimit := h.limit
  have hprotected : p.minimum ≤ p.limit := UInt64.le_iff_toNat_le.mpr h.minimum_le
  have hfree : p.used ≤ p.limit := UInt64.le_iff_toNat_le.mpr (by omega)
  have havailable : p.unusedMinimum ≤ p.limit - p.used := by
    rw [UInt64.le_iff_toNat_le, UInt64.toNat_sub_of_le _ _ hfree]
    omega
  unfold Pool.newAccount
  split
  . exact ⟨_, rfl, nofun⟩
  split
  . exact ⟨_, rfl, nofun⟩
  split
  . exact ⟨_, rfl, nofun⟩
  rename_i _ _ hnew
  have hnew : name ∉ p.accounts := by
    intro hmem
    exact hnew (List.contains_iff_mem.mpr (mem_keys.mp hmem))
  dsimp only
  generalize (if maximum = 0 then p.limit else maximum) = maximum
  split
  . exact ⟨_, rfl, nofun⟩
  rename_i hbounds
  rw [sub_of_le hprotected, pure_bind]
  split
  . exact ⟨_, rfl, nofun⟩
  rename_i hminimum
  rw [sub_of_le hfree, pure_bind, sub_of_le havailable, pure_bind]
  split
  . exact ⟨_, rfl, nofun⟩
  rename_i hshared
  refine ⟨_, rfl, ?_⟩
  rintro q ⟨⟩
  have hlt := p.limit.toNat_lt
  have hminimum := UInt64.le_iff_toNat_le.mp (UInt64.not_lt.mp hminimum)
  have hshared := UInt64.le_iff_toNat_le.mp (UInt64.not_lt.mp hshared)
  have hprotected' := h.minimum_le
  rw [UInt64.toNat_sub_of_le _ _ hprotected] at hminimum
  rw [UInt64.toNat_sub_of_le _ _ havailable, UInt64.toNat_sub_of_le _ _ hfree] at hshared
  refine ⟨h.add hnew rfl rfl rfl rfl rfl ?_ ?_ ?_ ?_ ?_, rfl, .add hnew⟩
  . exact UInt64.le_iff_toNat_le.mp (UInt64.not_lt.mp (not_or.mp hbounds).1)
  . change (p.minimum + minimum).toNat = p.minimum.toNat + minimum.toNat
    rw [UInt64.toNat_add]
    exact Nat.mod_eq_of_lt (by omega)
  . change (p.unusedMinimum + minimum).toNat = p.unusedMinimum.toNat + minimum.toNat
    rw [UInt64.toNat_add]
    exact Nat.mod_eq_of_lt (by omega)
  . change p.minimum.toNat + minimum.toNat ≤ p.limit.toNat
    omega
  change p.used.toNat + p.unusedMinimum.toNat + minimum.toNat ≤ p.limit.toNat
  omega

structure Reserved (p : Pool) (name : String) (a : Account) (bytes : UInt64) (q : Pool) : Prop where
  account : q.accounts.lookup name = some (a.raise bytes)
  used : (a.raise bytes).used.toNat = a.used.toNat + bytes.toNat
  others : ∀ n, n ≠ name → q.accounts.lookup n = p.accounts.lookup n
  pool : q = { p.raise bytes q.unusedMinimum with accounts := q.accounts }
  total : q.used.toNat = p.used.toNat + bytes.toNat

def Refused (p : Pool) (name : String) (a : Account) (q : Pool) : Prop :=
  q = { p with denied := p.denied + 1 }.setAccount name { a with denied := a.denied + 1 }

theorem Inv.reserved_zero (h : p.Inv) (ha : p.accounts.lookup name = some a)
    : p.Reserved name a 0 p := by
  have hpeak := UInt64.not_lt.mpr (UInt64.le_iff_toNat_le.mpr h.peak)
  have hpeaks := UInt64.not_lt.mpr (UInt64.le_iff_toNat_le.mpr (h.peaks name a ha))
  have hraise : a.raise 0 = a := by
    unfold Account.raise
    rw [UInt64.add_zero, if_neg hpeaks]
  refine ⟨?_, ?_, fun _ _ => rfl, ?_, rfl⟩
  . rw [hraise, ha]
  . rw [hraise]
    rfl
  unfold raise
  rw [UInt64.add_zero, if_neg hpeak]

theorem Inv.tryReserve (h : p.Inv) (name : String) (bytes : UInt64)
    : ∃ granted q, p.tryReserve name bytes = pure (granted, q) ∧ q.Inv
      ∧ q.limit = p.limit ∧ Raised p.accounts q.accounts
      ∧ (∀ a, p.accounts.lookup name = some a →
        if granted then p.Reserved name a bytes q else p.Refused name a q)
      ∧ ∀ a, p.accounts.lookup name = some a → (granted = true ↔ p.Admits a bytes) := by
  unfold Pool.tryReserve
  cases ha : p.accounts.lookup name with
  | none => exact ⟨_, _, rfl, h, rfl, .same, nofun, nofun⟩
  | some a =>
    obtain ⟨can, hcan, hiff⟩ := canReserveLocked_eq (h.holds ha) bytes
    dsimp only
    rw [hcan, pure_bind]
    have hadmits : ∀ b, some a = some b → (can = true ↔ p.Admits b bytes) := by
      rintro b ⟨⟩
      exact hiff
    cases can with
    | false =>
      refine ⟨false, _, rfl, h.count ha rfl rfl rfl, rfl, .set ha rfl rfl (Nat.le_refl _), ?_, hadmits⟩
      rintro b ⟨⟩
      exact rfl
    | true =>
      by_cases hzero : bytes = 0
      . rw [hzero]
        refine ⟨true, p, rfl, h, rfl, .same, ?_, hzero ▸ hadmits⟩
        rintro b ⟨⟩
        exact h.reserved_zero ha
      obtain ⟨u, heq, hinv, hused, htotal⟩ := h.adjust ha (hiff.mp rfl) hzero
      have hraised : Raised p.accounts (p.accounts.insert name (a.raise bytes)) :=
        .set ha rfl rfl (hused ▸ Nat.le_add_right _ _)
      refine ⟨true, (p.raise bytes u).setAccount name (a.raise bytes), ?_, hinv, rfl, hraised, ?_, hadmits⟩
      . simp only [Bool.not_true, Bool.false_eq_true, if_false, if_neg hzero, heq, pure_bind]
      rintro b ⟨⟩
      exact ⟨lookup_insert p.accounts, hused, fun n hn => lookup_insert_ne hn, rfl, htotal⟩

theorem Inv.setReleased (h : (p.setAccount name a).Inv) (total own : UInt64)
    : ({ p with released := total }.setAccount name { a with released := own }).Inv :=
  h.count (lookup_insert p.accounts) (insert_insert p.accounts).symm rfl rfl

theorem Inv.release (h : p.Inv) (name : String) (bytes : UInt64)
    : ∃ q, p.release name bytes = pure q ∧ q.Inv ∧ q.limit = p.limit
      ∧ ((∀ a, p.accounts.lookup name = some a → bytes ≤ a.used → bytes = 0) →
        Raised p.accounts q.accounts)
      ∧ ∀ a, p.accounts.lookup name = some a → a.used < bytes →
        q = { p with invalid := p.invalid + 1 }.setAccount name { a with invalid := a.invalid + 1 } := by
  unfold Pool.release
  cases ha : p.accounts.lookup name with
  | none => exact ⟨_, rfl, h, rfl, fun _ => .same, nofun⟩
  | some a =>
    dsimp only
    split
    . refine ⟨_, rfl, h.count ha rfl rfl rfl, rfl, fun _ => .set ha rfl rfl (Nat.le_refl _), ?_⟩
      rintro b ⟨⟩ _
      rfl
    rename_i hbytes
    have hover : ∀ b, some a = some b → b.used < bytes → False := by
      rintro b ⟨⟩ hlt
      exact hbytes hlt
    split
    . exact ⟨p, rfl, h, rfl, fun _ => .same, fun b hb hlt => (hover b hb hlt).elim⟩
    rename_i hzero
    obtain ⟨u, heq, hinv, _⟩ := h.releaseUsed ha (UInt64.not_lt.mp hbytes)
    rw [heq, pure_bind]
    refine ⟨_, rfl, hinv.setReleased _ _, rfl, ?_, fun b hb hlt => (hover b hb hlt).elim⟩
    intro hnone
    exact absurd (hnone a rfl (UInt64.not_lt.mp hbytes)) hzero

theorem Inv.transferTo (h : p.Inv) (name dst : String) (bytes : UInt64)
    : ∃ moved q, p.transferTo name dst bytes = pure (moved, q) ∧ q.Inv ∧ q.limit = p.limit
      ∧ (Raised p.accounts q.accounts ∨ moved = true ∧ Moved p.accounts name dst bytes q.accounts)
      ∧ (moved = false → ∀ n, q.accounts.lookup n = p.accounts.lookup n) := by
  unfold Pool.transferTo
  cases ha : p.accounts.lookup name with
  | none => exact ⟨_, _, rfl, h, rfl, .inl .same, fun _ _ => rfl⟩
  | some a =>
    cases hd : p.accounts.lookup dst with
    | none => exact ⟨_, _, rfl, h, rfl, .inl .same, fun _ _ => rfl⟩
    | some d =>
      dsimp only
      split
      . exact ⟨_, _, rfl, h, rfl, .inl .same, fun _ _ => rfl⟩
      rename_i hbytes
      split
      . exact ⟨_, _, rfl, h, rfl, .inl .same, nofun⟩
      rename_i hmoves
      obtain ⟨hzero, hne⟩ := not_or.mp hmoves
      obtain ⟨u, heq, hinv, hback⟩ := h.releaseUsed ha (UInt64.not_lt.mp hbytes)
      have hd' : lookup dst (p.accounts.insert name { a with used := a.used - bytes }) = some d := by
        rw [lookup_insert_ne (Ne.symm hne), hd]
      have hholds := hinv.holds hd'
      obtain ⟨can, hcan, hiff⟩ := canReserveLocked_eq (p := { p with
        used := p.used - bytes
        unusedMinimum := u }) ⟨hholds.used, hholds.left, hholds.limit⟩ bytes
      rw [heq, pure_bind]
      rw [hcan, pure_bind]
      cases can with
      | false =>
        obtain ⟨v, hadjust, hinv', _, _⟩ := hinv.adjust (lookup_insert p.accounts) hback hzero
        -- The account has its bytes again, and its peak was not below them.
        have hsame : { a with used := a.used - bytes }.raise bytes = a := by
          have hpeak := UInt64.le_iff_toNat_le.mpr (h.peaks name a ha)
          unfold Account.raise
          rw [UInt64.sub_add_cancel, if_neg (UInt64.not_lt.mpr hpeak)]
        rw [insert_insert, hsame] at hinv'
        refine ⟨false, _, ?_, hinv', rfl, .inl (.set ha rfl rfl (Nat.le_refl _)), ?_⟩
        . simp only [Bool.not_false, if_true, hadjust, pure_bind, hsame]
          rfl
        intro _ n
        by_cases hn : n = name
        . rw [hn, lookup_insert, ha]
        . rw [lookup_insert_ne hn]
      | true =>
        obtain ⟨v, hadjust, hinv', hused, _⟩ := hinv.adjust hd' (hiff.mp rfl) hzero
        have hmoved : Moved p.accounts name dst bytes
            ((p.accounts.insert name { a with used := a.used - bytes }).insert dst (d.raise bytes)) :=
          .move ha hd hne hzero (UInt64.not_lt.mp hbytes) rfl rfl hused
        refine ⟨true, _, ?_, hinv', rfl, .inr ⟨rfl, hmoved⟩, nofun⟩
        simp only [Bool.not_true, Bool.false_eq_true, if_false, hadjust, pure_bind]
        rfl

def Bounds (p : Pool) (held : String → Account → Nat) : Prop :=
  sum held p.accounts + sum (fun n a => a.minimum.toNat - held n a) p.accounts ≤ p.limit.toNat
    ∧ ∀ n a, p.accounts.lookup n = some a → held n a ≤ a.maximum.toNat

def heldAfter (name : String) (bytes : UInt64) (n : String) (a : Account) : Nat :=
  a.used.toNat + if n = name then bytes.toNat else 0

theorem Inv.admits_iff (h : p.Inv) (ha : p.accounts.lookup name = some a)
    : p.Admits a bytes ↔ p.Bounds (heldAfter name bytes) := by
  have hself : heldAfter name bytes name a = a.used.toNat + bytes.toNat := by
    unfold heldAfter
    rw [if_pos rfl]
  have hother : ∀ n b, n ≠ name → heldAfter name bytes n b = b.used.toNat := by
    intro n b hne
    unfold heldAfter
    rw [if_neg hne, Nat.add_zero]
  have hheld : sum (heldAfter name bytes) p.accounts = p.used.toNat + bytes.toNat := by
    rw [h.used_eq, sum_of_lookup ha, sum_of_lookup ha, hself, sum_erase_congr hother]
    omega
  have hunused : sum (fun n b => b.minimum.toNat - heldAfter name bytes n b) p.accounts
      = a.minimum.toNat - (a.used.toNat + bytes.toNat)
        + (p.unusedMinimum.toNat - (a.minimum.toNat - a.used.toNat)) := by
    have hsame : ∀ n b, n ≠ name → b.minimum.toNat - heldAfter name bytes n b
        = b.minimum.toNat - b.used.toNat := by
      intro n b hne
      rw [hother n b hne]
    rw [h.unused_eq, sum_of_lookup ha, sum_of_lookup ha, hself, sum_erase_congr hsame]
    omega
  have hlimit := h.limit
  have hleft := (h.holds ha).left
  rw [Account.toNat_left] at hleft
  unfold Admits Bounds
  rw [Account.toNat_left, hheld, hunused]
  constructor
  . rintro ⟨hroom, hfree⟩
    refine ⟨by omega, ?_⟩
    intro n b hb
    by_cases hn : n = name
    . subst hn
      rw [ha] at hb
      cases hb
      rw [hself]
      exact hroom
    rw [hother n b hn]
    exact h.within n b hb
  rintro ⟨hfree, hwithin⟩
  have hroom := hwithin name a ha
  rw [hself] at hroom
  omega

end Pool

inductive Call where
  | newAccount (name : String) (minimum maximum : UInt64)
  | tryReserve (name : String) (bytes : UInt64)
  | release (name : String) (bytes : UInt64)
  | transferTo (name dst : String) (bytes : UInt64)

def Call.run (p : Pool) : Call → Checked Pool
  | .newAccount name minimum maximum => do
    let r ← p.newAccount name minimum maximum
    return r.toOption.getD p
  | .tryReserve name bytes => do
    let r ← p.tryReserve name bytes
    return r.2
  | .release name bytes => p.release name bytes
  | .transferTo name dst bytes => do
    let r ← p.transferTo name dst bytes
    return r.2

def runCalls (p : Pool) : List Call → Checked Pool
  | [] => pure p
  | call :: calls => do
    let p ← call.run p
    runCalls p calls

theorem Call.run_inv (h : p.Inv) (call : Call) : ∃ q, call.run p = pure q ∧ q.Inv := by
  cases call with
  | newAccount name minimum maximum =>
    obtain ⟨r, heq, hinv⟩ := h.newAccount name minimum maximum
    refine ⟨r.toOption.getD p, ?_, ?_⟩
    . simp only [run, heq, pure_bind]
    cases r with
    | error err => exact h
    | ok q => exact (hinv q rfl).1
  | tryReserve name bytes =>
    obtain ⟨granted, q, heq, hinv, _⟩ := h.tryReserve name bytes
    refine ⟨q, ?_, hinv⟩
    simp only [run, heq, pure_bind]
  | release name bytes =>
    obtain ⟨q, heq, hinv, _⟩ := h.release name bytes
    exact ⟨q, heq, hinv⟩
  | transferTo name dst bytes =>
    obtain ⟨moved, q, heq, hinv, _⟩ := h.transferTo name dst bytes
    refine ⟨q, ?_, hinv⟩
    simp only [run, heq, pure_bind]

theorem runCalls_inv (h : p.Inv) (calls : List Call) : ∃ q, runCalls p calls = pure q ∧ q.Inv := by
  induction calls generalizing p with
  | nil => exact ⟨p, rfl, h⟩
  | cons call calls ih =>
    obtain ⟨q, heq, hinv⟩ := call.run_inv h
    unfold runCalls
    rw [heq, pure_bind]
    exact ih hinv

/--
After any calls no difference has wrapped around, the totals are those of the accounts, and every
bound holds.
-/
theorem pool_of_calls (limit : UInt64) (calls : List Call)
    : ∃ p, runCalls (Pool.new limit) calls = pure p
      ∧ p.used.toNat = sum (fun _ a => a.used.toNat) p.accounts
      ∧ p.unusedMinimum.toNat = sum (fun _ a => a.minimum.toNat - a.used.toNat) p.accounts
      ∧ p.used.toNat + p.unusedMinimum.toNat ≤ p.limit.toNat
      ∧ (∀ name a, p.accounts.lookup name = some a → a.used.toNat ≤ a.maximum.toNat)
      ∧ (∀ name a bytes, p.accounts.lookup name = some a →
        ∃ granted q, p.tryReserve name bytes = pure (granted, q)
          ∧ (granted = true ↔ p.Bounds (Pool.heldAfter name bytes))
          ∧ (a.used.toNat + bytes.toNat ≤ a.minimum.toNat → granted = true)
          ∧ if granted then p.Reserved name a bytes q else p.Refused name a q)
      ∧ (∀ name dst bytes, ∃ moved q, p.transferTo name dst bytes = pure (moved, q)
        ∧ (moved = false → ∀ n, q.accounts.lookup n = p.accounts.lookup n))
      ∧ (∀ name a bytes, p.accounts.lookup name = some a → a.used < bytes →
        p.release name bytes = pure ({ p with invalid := p.invalid + 1 }.setAccount name
          { a with invalid := a.invalid + 1 })) := by
  obtain ⟨p, heq, h⟩ := runCalls_inv (Pool.inv_new limit) calls
  refine ⟨p, heq, h.used_eq, h.unused_eq, h.limit, h.within, ?_, ?_, ?_⟩
  . intro name a bytes ha
    obtain ⟨granted, q, heq, _, _, _, hanswer, hiff⟩ := h.tryReserve name bytes
    have hiff := hiff a ha
    refine ⟨granted, q, heq, hiff.trans (h.admits_iff ha), ?_, hanswer a ha⟩
    intro hmin
    have hordered := h.ordered name a ha
    have hlimit := h.limit
    have hleft := (h.holds ha).left
    apply hiff.mpr
    unfold Pool.Admits
    rw [Account.toNat_left] at hleft ⊢
    omega
  . intro name dst bytes
    obtain ⟨moved, q, heq, _, _, _, hfailed⟩ := h.transferTo name dst bytes
    exact ⟨moved, q, heq, hfailed⟩
  intro name a bytes ha hover
  obtain ⟨q, heq, _, _, _, hinvalid⟩ := h.release name bytes
  rw [heq, hinvalid a ha hover]

-- An account that holds nothing, and a release of one byte: the account counts it.
theorem overRelease_counted
    : ∃ p a, runCalls (Pool.new 1) [.newAccount "a" 0 0] = pure p ∧ p.accounts.lookup "a" = some a
      ∧ a.used < 1 ∧ (p.release "a" 1).value.accounts.lookup "a" ≠ some a := by
  refine ⟨(runCalls (Pool.new 1) [.newAccount "a" 0 0]).value, ⟨0, 1, 0, 0, 0, 0, 0⟩, ?_, ?_, ?_, ?_⟩
  . rfl
  . decide +kernel
  . decide
  . decide +kernel

end Membudget
