import GoXrpl.OpenLedger.Impl.Apply
import GoXrpl.SHAMap.Canonicity

open List

namespace OpenLedger

open Sorting

theorem strictWeak_before (salt : Hash256) : StrictWeak (before salt) := by
  have hlex := StrictWeak.lex (fun ptx : PendingTx => computeAccountKey ptx.account salt)
    (StrictWeak.lex (fun ptx : PendingTx => ptx.isTicket)
      (StrictWeak.lex (fun ptx : PendingTx => ptx.sequence)
        (StrictWeak.of_key fun ptx : PendingTx => ptx.hash)))
  have hbefore : before salt = fun a b =>
      if computeAccountKey a.account salt ≠ computeAccountKey b.account salt then
        decide (computeAccountKey a.account salt < computeAccountKey b.account salt)
      else if a.isTicket ≠ b.isTicket then
        decide (a.isTicket < b.isTicket)
      else if a.sequence ≠ b.sequence then
        decide (a.sequence < b.sequence)
      else
        decide (a.hash < b.hash) := by
    funext a b
    unfold before
    have hticket (x y : Bool) (h : x ≠ y) : (!x) = decide (x < y) := by
      revert h
      cases x <;> cases y <;> decide
    split
    . rfl
    split
    . next h => exact hticket _ _ h
    . rfl
  rw [hbefore]
  exact hlex

theorem eq_hash_of_not_before (hab : before salt a b = false) (hba : before salt b a = false)
    : a.hash = b.hash := by
  unfold before at hab hba
  by_cases hkey : computeAccountKey a.account salt = computeAccountKey b.account salt
  . rw [if_neg (not_not.mpr hkey)] at hab
    rw [if_neg (not_not.mpr hkey.symm)] at hba
    by_cases hticket : a.isTicket = b.isTicket
    . rw [if_neg (not_not.mpr hticket)] at hab
      rw [if_neg (not_not.mpr hticket.symm)] at hba
      by_cases hsequence : a.sequence = b.sequence
      . rw [if_neg (not_not.mpr hsequence), decide_eq_false_iff_not, Std.not_lt] at hab
        rw [if_neg (not_not.mpr hsequence.symm), decide_eq_false_iff_not, Std.not_lt] at hba
        exact Std.le_antisymm hba hab
      rw [if_pos hsequence, decide_eq_false_iff_not, Std.not_lt] at hab
      rw [if_pos (Ne.symm hsequence), decide_eq_false_iff_not, Std.not_lt] at hba
      exact absurd (Std.le_antisymm hba hab) hsequence
    rw [if_pos hticket, Bool.not_eq_false'] at hab
    rw [if_pos (Ne.symm hticket), Bool.not_eq_false'] at hba
    exact absurd (hab.trans hba.symm) hticket
  rw [if_pos hkey, decide_eq_false_iff_not, Std.not_lt] at hab
  rw [if_pos (Ne.symm hkey), decide_eq_false_iff_not, Std.not_lt] at hba
  exact absurd (Std.le_antisymm hba hab) hkey

theorem canonicalSort_eq (txs : List PendingTx) (salt : Hash256)
    : canonicalSort txs salt = stableSort (before salt) txs := by
  unfold canonicalSort
  split
  . next hlength =>
    rcases txs with _ | ⟨a, _ | ⟨b, txs⟩⟩
    . rfl
    . rfl
    . simp at hlength
  . rfl

theorem canonicalSort_eq_of_perm (hperm : txs.Perm txs')
    (hnodup : (txs.map PendingTx.hash).Nodup) (salt : Hash256)
    : canonicalSort txs salt = canonicalSort txs' salt := by
  rw [canonicalSort_eq, canonicalSort_eq]
  apply stableSort_eq_of_perm (strictWeak_before salt) hperm
  intro a ha b hb hab hba
  exact inj_on_of_nodup_map hnodup ha hb (eq_hash_of_not_before hab hba)

def InOrder (a b : PendingTx) : Prop :=
  a.account = b.account →
    a.isTicket = false ∧ b.isTicket = true ∨ a.isTicket = b.isTicket ∧ a.sequence ≤ b.sequence

theorem inOrder_of_not_before (hba : before salt b a = false) : InOrder a b := by
  intro haccount
  unfold before at hba
  rw [haccount, if_neg (not_not.mpr rfl)] at hba
  by_cases hticket : b.isTicket = a.isTicket
  . rw [if_neg (not_not.mpr hticket)] at hba
    refine .inr ⟨hticket.symm, ?_⟩
    by_cases hsequence : b.sequence = a.sequence
    . rw [hsequence]
      exact Std.le_refl _
    rw [if_pos hsequence, decide_eq_false_iff_not, Std.not_lt] at hba
    exact hba
  rw [if_pos hticket, Bool.not_eq_false'] at hba
  rw [hba, eq_comm, Bool.not_eq_true] at hticket
  exact .inl ⟨hticket, hba⟩

theorem canonicalSort_inOrder (txs : List PendingTx) (salt : Hash256)
    : (canonicalSort txs salt).Pairwise InOrder := by
  rw [canonicalSort_eq]
  exact (pairwise_stableSort (strictWeak_before salt) txs).imp inOrder_of_not_before

section Passes

variable {View Engine Tx Err : Type} {p : Processor View Engine Tx Err} {pass : Nat}

def firstPass (attempts : List Attempt) : List PendingTx :=
  (attempts.filter fun attempt => attempt.pass = 0).map (·.tx)

theorem firstPass_append (l l' : List Attempt)
    : firstPass (l ++ l') = firstPass l ++ firstPass l' := by
  unfold firstPass
  rw [filter_append, map_append]

theorem prepare_map (h : prepare p view checkMembership txs = .ok prepared)
    : prepared.map (·.1) = txs := by
  induction txs generalizing prepared with
  | nil =>
    cases h
    rfl
  | cons ptx txs ih =>
    unfold prepare at h
    split at h
    . cases h
    split at h
    . cases h
    split at h
    . cases h
    . next hrest =>
      cases h
      rw [map_cons, ih hrest]

theorem initialPass_firstPass (h : initialPass p mode prepared s = .ok r)
    : ∃ l, l.Sublist (prepared.map (·.1)) ∧ firstPass r.attempts = firstPass s.attempts ++ l := by
  induction prepared generalizing s with
  | nil =>
    cases h
    exact ⟨[], List.Sublist.refl _, (append_nil _).symm⟩
  | cons entry prepared ih =>
    obtain ⟨ptx, parsed, eligible⟩ := entry
    simp only [initialPass] at h
    split at h
    . obtain ⟨l, hl, hattempts⟩ := ih h
      exact ⟨l, hl.cons _, hattempts⟩
    split at h
    . cases h
    have hfirst : firstPass (s.attempts ++ [⟨0, ptx⟩]) = firstPass s.attempts ++ [ptx] :=
      firstPass_append _ _
    split at h
    all_goals
      obtain ⟨l, hl, hattempts⟩ := ih h
      refine ⟨ptx :: l, hl.cons_cons _, ?_⟩
      rw [hattempts]
      rw [hfirst, append_assoc]
      rfl

theorem retryPass_firstPass (h : retryPass p mode pass candidates s = .ok r)
    : firstPass r.attempts = firstPass s.attempts := by
  induction candidates generalizing s with
  | nil =>
    cases h
    rfl
  | cons candidate candidates ih =>
    have hsame : firstPass (s.attempts ++ [⟨pass + 1, candidate.pending⟩]) = firstPass s.attempts := by
      rw [firstPass_append]
      exact append_nil _
    simp only [retryPass] at h
    split at h
    . cases h
    split at h
    all_goals
      rw [ih h]
      exact hsame

theorem retryLoop_firstPass (h : retryLoop p cfg passOffset remaining pass certainRetry s = .ok r)
    : firstPass r.attempts = firstPass s.attempts := by
  induction remaining generalizing pass certainRetry s with
  | zero =>
    cases h
    rfl
  | succ remaining ih =>
    simp only [retryLoop] at h
    split at h
    . cases h
      rfl
    split at h
    . cases h
    . next hpass =>
      split at h
      . cases h
        exact retryPass_firstPass hpass
      rw [ih h]
      exact retryPass_firstPass hpass

theorem applyTxs_firstPass
    (h : applyTxs p cfg checkMembership includeSeededRetries view txs retries
      = .ok (view', retries', attempts))
    : (firstPass attempts).Sublist txs := by
  unfold applyTxs at h
  split at h
  . cases h
    exact nil_sublist _
  split at h
  . cases h
  split at h
  . cases h
  . next prepared hprepared =>
    split at h
    . cases h
    split at h
    . cases h
    . next first hinitial =>
      dsimp only at h
      split at h
      . cases h
      . next s hloop =>
        cases h
        obtain ⟨l, hl, hattempts⟩ := initialPass_firstPass hinitial
        have hfirst : firstPass s.attempts = firstPass first.attempts := by
          cases hmode : cfg.mode with
          | openLedger =>
            rw [hmode] at hloop
            exact retryLoop_firstPass hloop
          | buildLedger =>
            rw [hmode] at hloop
            exact retryLoop_firstPass hloop
        rw [hfirst, hattempts]
        rw [prepare_map hprepared] at hl
        exact hl

end Passes

section Salt

variable [Sha512Half]

def items (txs : List PendingTx) : List SHAMap.Item :=
  txs.map fun ptx => { key := ptx.hash, data := ptx.blob }

variable {txMap : SHAMap}

theorem putWithNodeType_eq (htype : txMap.mapType = .transaction) (key : Hash256)
    (data : List UInt8)
    : txMap.putWithNodeType key data .transactionNoMeta = txMap.put key data := by
  unfold SHAMap.putWithNodeType SHAMap.put SHAMap.putItemUnsafe SHAMap.getLeafNodeType
  rw [htype]

theorem put_ok (h : txMap.Holds c m) (key : Hash256) (hlength : 12 ≤ data.length)
    : ∃ c', txMap.put key data = (.ok (), { txMap with root := SHAMap.rootOf c' })
        ∧ SHAMap.Holds { txMap with root := SHAMap.rootOf c' } c' (m.update (.put key data)) := by
  obtain ⟨c', hput, hholds⟩ := h.putItemUnsafe { key, data } hlength
  refine ⟨c', ?_, ?_⟩
  . unfold SHAMap.put
    rw [if_neg (not_not.mpr h.state)]
    exact hput
  simp only [SHAMap.Contents.update, if_pos hlength]
  exact hholds

theorem insertTxs_ok (h : txMap.Holds c m) (htype : txMap.mapType = .transaction)
    (hlength : ∀ ptx ∈ txs, 12 ≤ ptx.blob.length)
    : ∃ txMap' c', insertTxs txMap txs = .ok txMap' ∧ txMap'.mapType = .transaction
        ∧ txMap'.Holds c' (((items txs).map fun item => .put item.key item.data).foldl
            SHAMap.Contents.update m) := by
  induction txs generalizing txMap c m with
  | nil => exact ⟨txMap, c, rfl, htype, h⟩
  | cons ptx txs ih =>
    obtain ⟨c₁, hput, hholds⟩ := put_ok h ptx.hash (hlength ptx mem_cons_self)
    obtain ⟨txMap', c', hinsert, hrest⟩ :=
      ih hholds htype fun ptx hptx => hlength ptx (mem_cons_of_mem _ hptx)
    refine ⟨txMap', c', ?_, hrest⟩
    unfold insertTxs
    rw [putWithNodeType_eq htype, hput]
    exact hinsert

theorem insertTxs_error (h : txMap.Holds c m) (htype : txMap.mapType = .transaction)
    (hlength : ¬ ∀ ptx ∈ txs, 12 ≤ ptx.blob.length)
    : ∃ err, insertTxs txMap txs = .error err := by
  induction txs generalizing txMap c m with
  | nil => exact absurd (fun _ hptx => nomatch hptx) hlength
  | cons ptx txs ih =>
    unfold insertTxs
    rw [putWithNodeType_eq htype]
    by_cases hhead : 12 ≤ ptx.blob.length
    . obtain ⟨c₁, hput, hholds⟩ := put_ok h ptx.hash hhead
      rw [hput]
      apply ih hholds htype
      intro hrest
      exact hlength (forall_mem_cons.mpr ⟨hhead, hrest⟩)
    obtain ⟨err, hput⟩ := SHAMap.putItemUnsafe_eq_error h.repr.typed { key := ptx.hash, data := ptx.blob }
      (Nat.lt_of_not_le hhead)
    refine ⟨.insert ptx.hash err, ?_⟩
    unfold SHAMap.put
    rw [if_neg (not_not.mpr h.state), hput]

theorem computeSalt_perm (hperm : txs.Perm txs') (hnodup : (txs.map PendingTx.hash).Nodup)
    : (computeSalt txs).toOption = (computeSalt txs').toOption := by
  have hnew := SHAMap.holds_new .transaction
  unfold computeSalt
  by_cases hlength : ∀ ptx ∈ txs, 12 ≤ ptx.blob.length
  . have hlength' : ∀ ptx ∈ txs', 12 ≤ ptx.blob.length :=
      fun ptx hptx => hlength ptx (hperm.mem_iff.mpr hptx)
    obtain ⟨txMap, c, hinsert, htype, hholds⟩ := insertTxs_ok hnew rfl hlength
    obtain ⟨txMap', c', hinsert', htype', hholds'⟩ := insertTxs_ok hnew rfl hlength'
    have hkeys : ((items txs).map SHAMap.Item.key).Nodup := by
      unfold items
      rw [map_map]
      exact hnodup
    have hitems : (items txs).Perm (items txs') := hperm.map _
    rw [← SHAMap.Contents.foldl_put_perm hitems hkeys] at hholds'
    rw [hinsert, hinsert', hholds.eq_of_contents hholds' (htype.trans htype'.symm)]
  have hlength' : ¬ ∀ ptx ∈ txs', 12 ≤ ptx.blob.length :=
    fun h => hlength fun ptx hptx => h ptx (hperm.mem_iff.mp hptx)
  obtain ⟨err, hinsert⟩ := insertTxs_error hnew rfl hlength
  obtain ⟨err', hinsert'⟩ := insertTxs_error hnew rfl hlength'
  rw [hinsert, hinsert']
  rfl

end Salt

section Build

variable {View Engine Tx Err Time : Type}

theorem buildSorted_firstPass (h : buildSorted ledgers cfg parent pending = .ok r)
    : (firstPass r.attempts).Sublist pending := by
  unfold buildSorted at h
  split at h
  . cases h
  split at h
  . cases h
  split at h
  . cases h
  . next hpasses =>
    split at h
    . cases h
    cases h
    exact applyTxs_firstPass hpasses

variable [Sha512Half]

theorem saltFor_perm (cfg : BuildConfig Time) (hperm : txs.Perm txs')
    (hnodup : (txs.map PendingTx.hash).Nodup)
    : (saltFor cfg txs).toOption = (saltFor cfg txs').toOption := by
  unfold saltFor
  split
  . rfl
  . exact computeSalt_perm hperm hnodup

/--
Transactions with different hashes give one ledger, one list of retries and one sequence of attempts
in whatever order they come in.
-/
theorem buildClosedLedger_perm (ledgers : Ledgers View Engine Tx Err Time) (cfg : BuildConfig Time)
    (parent : Option View) {txs txs' : List PendingTx} (hperm : txs.Perm txs')
    (hnodup : (txs.map PendingTx.hash).Nodup)
    : (buildClosedLedger ledgers cfg parent txs).toOption
          = (buildClosedLedger ledgers cfg parent txs').toOption
      ∧ ∀ r, buildClosedLedger ledgers cfg parent txs = .ok r →
          (firstPass r.attempts).Pairwise InOrder := by
  have hsalt := saltFor_perm cfg hperm hnodup
  constructor
  . unfold buildClosedLedger
    split
    . rfl
    split
    . rfl
    cases h : saltFor cfg txs with
    | error err =>
      rw [h] at hsalt
      cases h' : saltFor cfg txs' with
      | error err' => rfl
      | ok salt' =>
        rw [h'] at hsalt
        cases hsalt
    | ok salt =>
      rw [h] at hsalt
      cases h' : saltFor cfg txs' with
      | error err' =>
        rw [h'] at hsalt
        cases hsalt
      | ok salt' =>
        rw [h'] at hsalt
        rw [← Option.some.inj hsalt]
        dsimp only
        rw [canonicalSort_eq_of_perm hperm hnodup]
  intro r h
  unfold buildClosedLedger at h
  split at h
  . cases h
  split at h
  . cases h
  split at h
  . cases h
  . exact (canonicalSort_inOrder txs _).sublist (buildSorted_firstPass h)

end Build

namespace Sample

abbrev sha512Half : Sha512Half where
  sum _ := Hash256.zero

attribute [local instance] sha512Half

-- A ledger that lists what has been applied to it, and an engine that applies everything
def processor : Processor (List (List UInt8)) (List (List UInt8)) Unit Empty where
  parseFromBinary _ := .ok ()
  txExists _ _ := .ok false
  buildEngine view _ _ := view
  applyTransaction _ e _ blob := (.ok { applied := true, result := 0, cause := none }, e ++ [blob])
  view e := e

def ledgers : Ledgers (List (List UInt8)) (List (List UInt8)) Unit Empty Unit where
  isOpen _ := false
  newOpenForBuild parent _ := .ok parent
  sequence _ := 1
  updateNegativeUNL view := .ok view
  close view _ _ := .ok view
  processor _ := processor

def cfg : BuildConfig Unit where
  closeTime := ()
  closeFlags := 0
  canonicalSalt := none
  apply :=
    { mode := .buildLedger, hasRules := true, skipSignatureVerification := true, retrySalt := none }

def tx (sequence : UInt32) (isTicket : Bool) (n : UInt8) : PendingTx where
  blob := replicate 12 n
  hash := .replicate 32 n
  account := .replicate 20 1
  sequence := sequence
  isTicket := isTicket

theorem buildClosedLedger_swap
    : (buildClosedLedger ledgers cfg (some []) [tx 1 true 1, tx 2 false 2]).toOption
          = (buildClosedLedger ledgers cfg (some []) [tx 2 false 2, tx 1 true 1]).toOption
      ∧ ∀ r, buildClosedLedger ledgers cfg (some []) [tx 1 true 1, tx 2 false 2] = .ok r →
          (firstPass r.attempts).Pairwise InOrder :=
  buildClosedLedger_perm ledgers cfg (some []) (List.Perm.swap _ _ _) (by decide)

end Sample

end OpenLedger
