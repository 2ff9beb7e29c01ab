import GoXrpl.Membudget.Pool
import GoXrpl.Transition.Run

/-!
This module contains the wake channel of a pool, which `Changed` hands out and calls that free bytes
close. A channel is known by the number of channels made before it.
-/

open AList

namespace Membudget

open Accounting Transition Pool

structure Waking where
  pool : Pool
  channel : Option Nat
  made : Nat
  closed : List Nat

inductive Op where
  | changed
  | call (call : Call)

namespace Waking

def new (limit : UInt64) : Waking where
  pool := Pool.new limit
  channel := none
  made := 0
  closed := []

def changed (s : Waking) : Nat × Waking :=
  match s.channel with
  | some ch => (ch, s)
  | none => (s.made, { s with channel := some s.made, made := s.made + 1 })

-- `takeChangedLocked`, and `close` of the channel it took.
def close (s : Waking) : Waking :=
  { s with channel := none, closed := s.channel.toList ++ s.closed }

end Waking

def Call.wakes (p : Pool) : Call → Bool
  | .newAccount _ _ _ => false
  | .tryReserve _ _ => false
  | .release name bytes => (p.accounts.lookup name).any fun a => bytes ≤ a.used ∧ bytes ≠ 0
  | .transferTo name dst bytes =>
    let (moved, q) := (p.transferTo name dst bytes).value
    moved && q.unusedMinimum < p.unusedMinimum

def Waking.step (s : Waking) : Op → Waking
  | .changed => s.changed.2
  | .call call =>
    let next := { s with pool := (call.run s.pool).value }
    if call.wakes s.pool then next.close else next

namespace Pool

def Denies (p : Pool) (name : String) (bytes : UInt64) : Prop :=
  ∃ a, p.accounts.lookup name = some a ∧ ¬ p.Admits a bytes

def spare (_ : String) (a : Account) : Nat := a.minimum.toNat - a.used.toNat

def Tightens (m m' : AList fun _ : String => Account) (name : String) : Prop :=
  ∀ a, m.lookup name = some a → ∃ a', m'.lookup name = some a' ∧ a'.maximum = a.maximum
    ∧ a.used.toNat ≤ a'.used.toNat
    ∧ sum (fun _ a => a.used.toNat) m + (sum spare m - spare name a)
      ≤ sum (fun _ a => a.used.toNat) m' + (sum spare m' - spare name a')

theorem Raised.tightens (h : Raised m m') (name : String) : Tightens m m' name := by
  intro a ha
  cases h with
  | same => exact ⟨a, ha, rfl, Nat.le_refl _, Nat.le_refl _⟩
  | @set name' b b' hb hmin hmax hused =>
    have h₁ := sum_change (f := fun _ a => a.used.toNat) (w := b') hb
    have h₂ := sum_change (f := spare) (w := b') hb
    unfold spare at *
    rw [hmin] at h₂
    by_cases hname : name = name'
    . subst hname
      cases ha.symm.trans hb
      refine ⟨b', lookup_insert _, hmax, hused, ?_⟩
      rw [hmin]
      omega
    refine ⟨a, by rw [lookup_insert_ne hname, ha], rfl, Nat.le_refl _, ?_⟩
    omega
  | @add name' b hnew =>
    have hname : name ≠ name' := by
      rintro rfl
      exact hnew (Assoc.mem_of_lookup ha)
    refine ⟨a, by rw [lookup_insert_ne hname, ha], rfl, Nat.le_refl _, ?_⟩
    rw [sum_insert, sum_insert, erase_eq_self hnew]
    omega

theorem Moved.tightens (h : Moved m src dst moved m') (hne : name ≠ src)
    (hspare : sum spare m ≤ sum spare m') : Tightens m m' name := by
  intro a ha
  obtain @⟨b, d, d', hb, hd, hsrc, _, hmoved, hmin, hmax, hused⟩ := h
  have h₁ := sum_change_two (f := fun _ a => a.used.toNat) (x := { b with used := b.used - moved })
    (y := d') hb hd hsrc
  have h₂ := sum_change_two (f := spare) (x := { b with used := b.used - moved }) (y := d') hb hd hsrc
  rw [UInt64.toNat_sub_of_le _ _ hmoved] at h₁
  by_cases hname : name = dst
  . subst hname
    cases ha.symm.trans hd
    refine ⟨d', lookup_insert _, hmax, by omega, ?_⟩
    unfold spare at *
    rw [UInt64.toNat_sub_of_le _ _ hmoved] at h₂
    rw [hmin] at h₂ ⊢
    omega
  refine ⟨a, ?_, rfl, Nat.le_refl _, ?_⟩
  . rw [lookup_insert_ne hname, lookup_insert_ne hne, ha]
  . omega

variable {p q : Pool}

theorem Tightens.denies (h : p.Inv) (h' : q.Inv) (hlimit : q.limit = p.limit)
    (htightens : Tightens p.accounts q.accounts name) (hdenies : p.Denies name bytes)
    : q.Denies name bytes := by
  obtain ⟨a, ha, hadmits⟩ := hdenies
  obtain ⟨a', ha', hmax, hused, htotal⟩ := htightens a ha
  refine ⟨a', ha', fun hadmits' => hadmits ?_⟩
  have h₁ := h.used_eq
  have h₂ := h.unused_eq
  have h₃ := h'.used_eq
  have h₄ := h'.unused_eq
  unfold Admits at *
  rw [Account.toNat_left, hmax, hlimit] at *
  unfold spare at htotal
  omega

end Pool

def Account.spareAt (a : Account) (used : Nat) : Nat := a.minimum.toNat - used

-- The transfer goes through and leaves the channel open, and then the bytes fit.
structure Pool.Hides (p : Pool) (a d : Account) (moved bytes : UInt64) : Prop where
  held : moved ≤ a.used
  room : d.used.toNat + moved.toNat ≤ d.maximum.toNat
  shared : p.used.toNat + p.unusedMinimum.toNat + a.spareAt (a.used.toNat - moved.toNat)
    ≤ p.limit.toNat + a.spareAt a.used.toNat + d.spareAt d.used.toNat
  silent : a.spareAt a.used.toNat + d.spareAt d.used.toNat
    ≤ a.spareAt (a.used.toNat - moved.toNat) + d.spareAt (d.used.toNat + moved.toNat)
  fits : a.used.toNat - moved.toNat + bytes.toNat ≤ a.maximum.toNat
  admits : p.used.toNat + p.unusedMinimum.toNat + bytes.toNat
      + d.spareAt (d.used.toNat + moved.toNat)
    ≤ p.limit.toNat + a.spareAt a.used.toNat + d.spareAt d.used.toNat

def Call.Hides (p : Pool) (name : String) (bytes : UInt64) : Call → Prop
  | .transferTo src dst moved => src = name ∧ src ≠ dst ∧ moved ≠ 0
    ∧ ∃ a d, p.accounts.lookup src = some a ∧ p.accounts.lookup dst = some d ∧ p.Hides a d moved bytes
  | _ => False

theorem Pool.Moved.denies_or_hides {q : Pool} (h : p.Inv) (h' : q.Inv) (hlimit : q.limit = p.limit)
    (hmoved : Moved p.accounts name dst moved q.accounts)
    (hspare : sum spare p.accounts ≤ sum spare q.accounts) (bytes : UInt64)
    : q.Denies name bytes ∨ (Call.transferTo name dst moved).Hides p name bytes := by
  have hbound := h'.limit
  have hwithin := h'.within dst
  rw [h'.used_eq, h'.unused_eq, hlimit] at hbound
  generalize hq : q.accounts = m' at hmoved hspare hbound hwithin
  obtain @⟨a, d, d', ha, hd, hne, hzero, hle, hmin, hmax, hused⟩ := hmoved
  have hused' := UInt64.toNat_sub_of_le _ _ hle
  have hroom := hwithin d' (lookup_insert _)
  have h₁ := sum_change_two (f := fun _ a => a.used.toNat) (x := { a with used := a.used - moved })
    (y := d') ha hd hne
  have h₂ := sum_change_two (f := spare) (x := { a with used := a.used - moved }) (y := d') ha hd hne
  unfold spare at h₂ hspare
  dsimp only at h₁ h₂
  rw [hused, hused'] at h₁
  rw [hmin, hused, hused'] at h₂
  rw [hused, hmax] at hroom
  by_cases hadmits : q.Admits { a with used := a.used - moved } bytes
  . right
    have hp₁ := h.used_eq
    have hp₂ := h.unused_eq
    have hq₁ := h'.used_eq
    have hq₂ := h'.unused_eq
    rw [hq] at hq₁ hq₂
    obtain ⟨hfits, hfree⟩ := hadmits
    rw [Account.toNat_left, hlimit, hused'] at hfree
    dsimp only at hfree
    rw [hused'] at hfits
    refine ⟨rfl, hne, hzero, a, d, ha, hd, ⟨hle, hroom, ?_, ?_, hfits, ?_⟩⟩
    all_goals
      unfold Account.spareAt
      omega
  left
  refine ⟨_, ?_, hadmits⟩
  rw [hq, lookup_insert_ne hne, lookup_insert]

theorem Call.run_denies (h : p.Inv) (hdenies : p.Denies name bytes) (call : Call)
    (hwakes : call.wakes p = false) (hhides : ¬ call.Hides p name bytes)
    : (call.run p).value.Denies name bytes := by
  obtain ⟨q, heq, hinv⟩ := call.run_inv h
  rw [heq]
  change q.Denies name bytes
  cases call with
  | newAccount name' minimum maximum =>
    obtain ⟨r, hr, hok⟩ := h.newAccount name' minimum maximum
    simp only [run, hr, Checked.pure_bind] at heq
    cases heq
    cases r with
    | error err => exact hdenies
    | ok q =>
      obtain ⟨_, hlimit, hraised⟩ := hok q rfl
      exact (hraised.tightens name).denies h hinv hlimit hdenies
  | tryReserve name' bytes' =>
    obtain ⟨granted, q, hr, _, hlimit, hraised, _⟩ := h.tryReserve name' bytes'
    simp only [run, hr, Checked.pure_bind] at heq
    cases heq
    exact (hraised.tightens name).denies h hinv hlimit hdenies
  | release name' bytes' =>
    obtain ⟨q, hr, _, hlimit, hraised, _⟩ := h.release name' bytes'
    cases hr.symm.trans heq
    refine ((hraised ?_).tightens name).denies h hinv hlimit hdenies
    intro a ha hle
    simp only [wakes, ha, Option.any_some, decide_eq_false_iff_not, not_and, not_not] at hwakes
    exact hwakes hle
  | transferTo src dst moved =>
    obtain ⟨done, q, hr, _, hlimit, hmoved, _⟩ := h.transferTo src dst moved
    simp only [run, hr, Checked.pure_bind] at heq
    cases heq
    rcases hmoved with hraised | ⟨hdone, hmoved⟩
    . exact (hraised.tightens name).denies h hinv hlimit hdenies
    have hspare : sum spare p.accounts ≤ sum spare q.accounts := by
      simp only [wakes, hr, hdone] at hwakes
      change decide (q.unusedMinimum < p.unusedMinimum) = false at hwakes
      have hle := UInt64.le_iff_toNat_le.mp (UInt64.not_lt.mp (of_decide_eq_false hwakes))
      rw [h.unused_eq, hinv.unused_eq] at hle
      exact hle
    by_cases hname : name = src
    . subst hname
      rcases hmoved.denies_or_hides h hinv hlimit hspare bytes with hstill | hfreed
      . exact hstill
      . exact absurd hfreed hhides
    . exact (hmoved.tightens hname hspare).denies h hinv hlimit hdenies

namespace Waking

def grants (s : Waking) (name : String) (bytes : UInt64) : Bool :=
  (s.pool.tryReserve name bytes).value.1

theorem not_denies_of_grants {s : Waking} (h : s.pool.Inv) (hgrants : s.grants name bytes = true)
    : ¬ s.pool.Denies name bytes := by
  rintro ⟨a, ha, hadmits⟩
  obtain ⟨granted, q, heq, _, _, _, _, hiff⟩ := h.tryReserve name bytes
  unfold grants at hgrants
  rw [heq] at hgrants
  exact hadmits ((hiff a ha).mp hgrants)

theorem denies_of_not_grants {s : Waking} (h : s.pool.Inv) (hname : name ∈ s.pool.accounts)
    (hgrants : s.grants name bytes = false) : s.pool.Denies name bytes := by
  obtain ⟨a, ha⟩ := Option.isSome_iff_exists.mp (lookup_isSome.mpr hname)
  obtain ⟨granted, q, heq, _, _, _, _, hiff⟩ := h.tryReserve name bytes
  refine ⟨a, ha, fun hadmits => ?_⟩
  unfold grants at hgrants
  rw [heq] at hgrants
  exact Bool.false_ne_true (hgrants.symm.trans ((hiff a ha).mpr hadmits))

theorem changed_eq (s : Waking)
    : s.changed.2 = { s with channel := some s.changed.1, made := s.changed.2.made } := by
  unfold changed
  split
  . rename_i hs
    rw [← hs]
  . rfl

theorem step_inv {s : Waking} (h : s.pool.Inv) (op : Op) : (s.step op).pool.Inv := by
  cases op with
  | changed =>
    change s.changed.2.pool.Inv
    rw [changed_eq]
    exact h
  | call call =>
    obtain ⟨q, heq, hinv⟩ := call.run_inv h
    unfold step
    dsimp only
    rw [heq]
    split
    . exact hinv
    . exact hinv

theorem run_inv (h : s.pool.Inv) (ops : List Op) : (run step s ops).pool.Inv :=
  run_invariant step (fun s => s.pool.Inv) (fun _ => True) h (fun _ op _ h => step_inv h op)
    fun _ _ => trivial

theorem step_closed {s : Waking} (h : ch ∈ s.closed) (op : Op) : ch ∈ (s.step op).closed := by
  cases op with
  | changed =>
    change ch ∈ s.changed.2.closed
    rw [changed_eq]
    exact h
  | call call =>
    unfold step
    dsimp only
    split
    . exact List.mem_append_right _ h
    . exact h

theorem mem_closed_of_wakes {s : Waking} (h : s.channel = some ch)
    (hwakes : call.wakes s.pool = true) : ch ∈ (s.step (.call call)).closed := by
  unfold step close
  dsimp only
  rw [if_pos hwakes, h]
  exact List.mem_cons_self

theorem step_channel {s : Waking} (h : ch ∈ s.closed ∨ s.channel = some ch) (op : Op)
    : ch ∈ (s.step op).closed ∨ (s.step op).channel = some ch := by
  rcases h with h | h
  . exact .inl (step_closed h op)
  cases op with
  | changed =>
    right
    change s.changed.2.channel = some ch
    unfold changed
    rw [h]
    exact h
  | call call =>
    by_cases hwakes : call.wakes s.pool = true
    . exact .inl (mem_closed_of_wakes h hwakes)
    right
    unfold step
    dsimp only
    rw [if_neg hwakes]
    exact h

/--
A caller that took a channel and was then denied finds it closed once the bytes would be granted,
unless a transfer out of its account hid that.
-/
theorem closed_of_grants (limit : UInt64) (before between after : List Op)
    (hch : (run step (.new limit) before).changed = (ch, s₀))
    (hname : name ∈ (run step s₀ between).pool.accounts)
    (hdenied : (run step s₀ between).grants name bytes = false)
    (hs₁ : s₁ = (run step s₀ between).step (.call (.tryReserve name bytes)))
    (hafter : ∀ p call, Occurs p (.call call) after →
      ¬ call.Hides (run step s₁ p).pool name bytes)
    (hgrants : (run step s₁ after).grants name bytes = true)
    : ch ∈ (run step s₁ after).closed := by
  have hinv₀ := run_inv (s := .new limit) (inv_new limit) before
  have hs₀ := changed_eq (run step (.new limit) before)
  rw [hch] at hs₀
  dsimp only at hs₀
  have hinv : (run step s₀ between).pool.Inv := by
    apply run_inv
    rw [hs₀]
    exact hinv₀
  have hchannel : ∀ ops, ch ∈ (run step s₀ ops).closed ∨ (run step s₀ ops).channel = some ch := by
    intro ops
    refine run_invariant step (fun s => ch ∈ s.closed ∨ s.channel = some ch) (fun _ => True) ?_
      (fun _ op _ h => step_channel h op) fun _ _ => trivial
    rw [hs₀]
    exact .inr rfl
  have hdenies := (Call.tryReserve name bytes).run_denies hinv
    (denies_of_not_grants hinv hname hdenied) rfl id
  subst hs₁
  by_contra hopen
  obtain ⟨p, op, hop, hbefore, hroom, hopen⟩ := exists_occurs_of_run step
    (P := fun s => ¬ s.pool.Denies name bytes ∧ ch ∉ s.closed) (fun h => h.1 hdenies)
    ⟨not_denies_of_grants (run_inv (step_inv hinv _) after) hgrants, hopen⟩
  have hinv' := run_inv (step_inv hinv (.call (.tryReserve name bytes))) p
  have hkept := hchannel (between ++ [.call (.tryReserve name bytes)] ++ p)
  have hhides := hafter p
  rw [run_append, run_concat] at hkept
  generalize run step ((run step s₀ between).step _) p = s at hbefore hroom hopen hinv' hkept hhides
  have hclosed : ch ∉ s.closed := fun h => hopen (step_closed h op)
  have hdenies' : s.pool.Denies name bytes := by
    by_contra hnot
    exact hbefore ⟨hnot, hclosed⟩
  cases op with
  | changed =>
    apply hroom
    change s.changed.2.pool.Denies name bytes
    rw [changed_eq]
    exact hdenies'
  | call call =>
    by_cases hwakes : call.wakes s.pool = true
    . exact hopen (mem_closed_of_wakes (hkept.resolve_left hclosed) hwakes)
    apply hroom
    unfold step
    dsimp only
    rw [if_neg hwakes]
    exact call.run_denies hinv' hdenies' (Bool.eq_false_iff.mpr hwakes) (hhides call hop)

namespace Sample

-- Account "a" holds all that its maximum allows, and is denied one byte more.
def before : List Op :=
  [.call (.newAccount "a" 0 10), .call (.newAccount "b" 0 0), .call (.tryReserve "a" 10)]

def taken : Nat × Waking := (run step (.new 20) before).changed

def denied : Waking := taken.2.step (.call (.tryReserve "a" 1))

theorem closed_of_release : taken.1 ∈ (run step denied [.call (.release "a" 5)]).closed := by
  refine closed_of_grants 20 before [] _ rfl ?_ ?_ rfl ?_ ?_
  . decide +kernel
  . decide +kernel
  . intro p call hop hhides
    have hmem := List.IsPrefix.subset hop (List.mem_append_right p List.mem_cons_self)
    cases List.mem_singleton.mp hmem
    exact hhides
  . decide +kernel

-- Five of its bytes go to account "b", and the byte would be granted.
theorem open_after_transfer
    : "a" ∈ taken.2.pool.accounts ∧ taken.2.grants "a" 1 = false
      ∧ (run step denied [.call (.transferTo "a" "b" 5)]).grants "a" 1 = true
      ∧ taken.1 ∉ (run step denied [.call (.transferTo "a" "b" 5)]).closed := by
  decide +kernel

end Sample

end Waking

end Membudget
