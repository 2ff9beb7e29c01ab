import GoXrpl.Keylet.Lemmas.Record
import GoXrpl.Ledger.Lemmas.Ledger
import GoXrpl.State.Lemmas.DirChain

open State.LedgerView State.Access Prod
open State.Keylet (dirPage)

namespace State

open Program

section

inductive Call where
  | insert (key : Hash256) (preserveOrder : Bool)
  | remove (key : Hash256) (page : UInt64) (keepRoot : Bool)

def Call.KeepsNoRoot : Call → Prop
  | .insert _ _ => True
  | .remove _ _ keepRoot => keepRoot = false

def Call.Preserves (order : Bool) : Call → Prop
  | .insert _ preserveOrder => preserveOrder = order
  | .remove _ _ _ => True

theorem forall_mem_append {P : Call → Prop} (h : ∀ c ∈ calls ++ [call], P c)
    : (∀ c ∈ calls, P c) ∧ P call :=
  ⟨fun c hc => h c (List.mem_append_left _ hc), h call (by simp)⟩

variable {Blob σ : Type} [Codec Blob] [Records Blob] [Sha512Half] [LedgerView Blob σ]

/--
An item is inserted when it is not in the directory, and removed from the page that its insertion
returned; `live` has these pages, in the order of the insertions.
-/
inductive Calls (view : MapView Blob σ) (dirKey : Keylet)
    : List Call → List (Hash256 × UInt64) → σ → Prop where
  | start {s : σ} (inv : view.Inv s)
      (absent : ∀ page, view.contents s (dirPage dirKey.key page).key = none)
      : Calls view dirKey [] [] s
  | insert {calls : List Call} {live : List (Hash256 × UInt64)} {s s' : σ} {key : Hash256}
      {page : UInt64} {preserveOrder fixDirectoryLimit : Bool}
      {setupFunc : DirectoryNode → DirectoryNode} (before : Calls view dirKey calls live s)
      (fresh : key ∉ live.map fst) (setup : ∀ node, (setupFunc node).page = node.page)
      (run : (dirInsert dirKey key preserveOrder fixDirectoryLimit setupFunc).run step s
        = (.done page, s'))
      : Calls view dirKey (calls ++ [.insert key preserveOrder]) (live ++ [(key, page)]) s'
  | remove {calls : List Call} {live : List (Hash256 × UInt64)} {s s' : σ} {key : Hash256}
      {page : UInt64} {keepRoot found : Bool} (before : Calls view dirKey calls live s)
      (mem : (key, page) ∈ live)
      (run : (dirRemove dirKey page key keepRoot).run step s = (.done found, s'))
      : Calls view dirKey (calls ++ [.remove key page keepRoot]) (live.filter (·.1 ≠ key)) s'
  | idle {calls : List Call} {live : List (Hash256 × UInt64)} {s s' : σ}
      (before : Calls view dirKey calls live s) (inv : view.Inv s')
      (same : view.contents s' = view.contents s) : Calls view dirKey calls live s'

def ReadFails (view : MapView Blob σ) (err : Error) : Prop :=
  ∃ k s s', view.Inv s ∧ (read k : TableProg Blob Error (Option Blob)).run step s
    = (.fail err, s')

structure Sound (view : MapView Blob σ) (dirKey : Keylet) (calls : List Call)
    (live : List (Hash256 × UInt64)) (s : σ) (pages : Pages) (order : List UInt64) : Prop where
  stored : HasPages view dirKey.key pages s
  consistent : pages.Consistent order live
  rooted : (∀ call ∈ calls, call.KeepsNoRoot) → pages.Rooted order
  sorted : (∀ call ∈ calls, call.Preserves false) →
    ∀ page, (pages.keysOf page).Pairwise (· < ·)
  inOrder : (∀ call ∈ calls, call.Preserves true) → pages.listing order = live.map fst

section

variable {view : MapView Blob σ} {dirKey : Keylet}
variable {s s' : σ}

theorem Sound.start (hinv : view.Inv s)
    (habsent : ∀ page, view.contents s (dirPage dirKey.key page).key = none)
    : Sound view dirKey [] [] s (fun _ => none) [] where
  stored := ⟨_, ⟨hinv, rfl⟩, fun page => .inl ⟨habsent page, rfl⟩⟩
  consistent := ⟨.absent fun _ => rfl, List.Perm.refl _, fun _ hitem => (by cases hitem),
    List.nodup_nil⟩
  rooted := fun _ halone => by cases halone
  sorted := fun _ _ => List.Pairwise.nil
  inOrder := fun _ => rfl

theorem Sound.idle (h : Sound view dirKey calls live s pages order) (hinv : view.Inv s')
    (hsame : view.contents s' = view.contents s)
    : Sound view dirKey calls live s' pages order := by
  obtain ⟨m, hstands, hstores⟩ := h.stored
  exact { h with stored := ⟨m, ⟨hinv, hsame.trans hstands.contents⟩, hstores⟩ }

omit [Records Blob] [Sha512Half] in
theorem read_cases (k : Keylet) (hinv : view.Inv s)
    : (∃ data s₁, (read k).run step s = (.done data, s₁))
      ∨ ∃ err s₁, ReadFails view err
        ∧ (read k : TableProg Blob Error (Option Blob)).run step s
          = (.fail err, s₁) := by
  let run := (read k : TableProg Blob Error (Option Blob)).run step s
  cases hanswer : (query (.read k) s).1 with
  | ok data =>
    have hrun : run = (.done data, (query (.read k) s).2) :=
      Prog.run_ofExcept_done.mpr ⟨hanswer, rfl⟩
    exact .inl ⟨data, _, hrun⟩
  | error err =>
    have hrun : run = (.fail err, (query (.read k) s).2) := by
      change (Prog.ofExcept (query (.read k) s).1 : TableProg Blob Error (Option Blob)).run
        step (query (.read k) s).2 = _
      rw [hanswer]
      rfl
    exact .inr ⟨err, _, ⟨k, s, _, hinv, hrun⟩, hrun⟩

theorem HasPages.inv (h : HasPages view dirKey.key pages s) : view.Inv s := by
  obtain ⟨m, hstands, _⟩ := h
  exact hstands.inv

def Lists (view : MapView Blob σ) (keys : List Hash256) (out : Outcome Error (List Hash256)) : Prop :=
  out = .done keys ∨ ∃ err, ReadFails view err ∧ out = .fail err

theorem forEach_page (h : HasPages view dirKey.key pages s) (hpage : pages page = some node)
    (hrest : ∀ {s s' : σ} {out}, HasPages view dirKey.key pages s →
      (forEachFrom dirKey fuel node.next).run step s = (out, s') → Lists view keys out)
    (hrun : (do
      let data ← read (dirPage dirKey.key page)
      if data.isNone then
        return []
      else
        let node ← parseDirectoryNode data
        let rest ← forEachFrom dirKey fuel node.indexNext
        return node.indexes ++ rest
      : TableProg Blob Error (List Hash256)).run step s = (out, s'))
    : Lists view (node.keys ++ keys) out := by
  rcases read_cases (dirPage dirKey.key page) h.inv with
    ⟨data, s₁, hread⟩ | ⟨err, s₁, hfails, hread⟩
  . rw [Prog.run_bind_of_done hread] at hrun
    obtain ⟨hpages, ⟨_, hnone⟩ | ⟨d, node', rfl, hparse, hsome⟩⟩ := h.read hread
    . rw [hnone] at hpage
      cases hpage
    rw [hsome] at hpage
    cases hpage
    have hnode : (parseDirectoryNode (some d)).run step s₁ = (.done node', s₁) :=
      Prog.run_ofOption_done.mpr ⟨hparse, rfl⟩
    rw [if_neg (by simp), Prog.run_bind_of_done hnode] at hrun
    rcases htail : (forEachFrom dirKey fuel node'.indexNext : TableProg Blob Error _).run
      step s₁ with ⟨tail, s₂⟩
    rcases hrest hpages htail with rfl | ⟨err, hfails, rfl⟩
    . rw [Prog.run_bind_of_done htail] at hrun
      cases hrun
      exact .inl rfl
    rw [Prog.run_bind_of_fail htail] at hrun
    cases hrun
    exact .inr ⟨err, hfails, rfl⟩
  rw [Prog.run_bind_of_fail hread] at hrun
  cases hrun
  exact .inr ⟨err, hfails, rfl⟩

theorem forEachFrom_run (h : HasPages view dirKey.key pages s)
    (hpath : pages.links.Path page l 0) (hzero : 0 ∉ l)
    (hexists : ∀ page ∈ l, (pages page).isSome) (hfuel : l.length < fuel)
    (hrun : (forEachFrom dirKey fuel (pages.links.next page)).run step s = (out, s'))
    : Lists view (pages.listing l) out := by
  induction l generalizing page fuel s s' out with
  | nil =>
    obtain ⟨fuel, rfl⟩ := Nat.exists_eq_add_one.mpr hfuel
    have hend : pages.links.next page = rootPage := hpath.1
    unfold forEachFrom at hrun
    rw [if_pos hend] at hrun
    cases hrun
    exact .inl rfl
  | cons c l ih =>
    obtain ⟨fuel, rfl⟩ := Nat.exists_eq_add_one.mpr (Nat.zero_lt_of_lt hfuel)
    obtain ⟨hnext, _, hrest⟩ := hpath
    obtain ⟨node, hnode⟩ := Option.isSome_iff_exists.mp (hexists c (by simp))
    have hne : c ≠ rootPage := fun heq => hzero (by rw [heq]; exact List.mem_cons_self)
    unfold forEachFrom at hrun
    rw [hnext, if_neg hne] at hrun
    have hlisting : pages.listing (c :: l) = node.keys ++ pages.listing l := by
      unfold Pages.listing
      rw [List.flatMap_cons, Pages.Chained.keysOf_eq hnode]
    rw [hlisting]
    refine forEach_page h hnode ?_ hrun
    intro s₁ s₂ tail hpages htail
    rw [← Pages.Chained.next_eq hnode] at htail
    exact ih hpages hrest (fun hmem => hzero (List.mem_cons_of_mem c hmem))
      (fun page hmem => hexists page (List.mem_cons_of_mem c hmem)) (Nat.lt_of_succ_lt_succ hfuel) htail

section

variable (h : Sound view dirKey calls live s pages order)

include h

theorem Sound.chained (hmem : (key, page) ∈ live) : ∃ l, order = 0 :: l ∧ pages.Chained l := by
  cases hshape : h.consistent.shape with
  | absent none => cases h.consistent.mem_order (h.consistent.located _ hmem)
  | present chained => exact ⟨_, rfl, chained⟩

theorem Sound.forEach (htype : dirKey.type = .of .directoryNode) (hfuel : order.length ≤ fuel)
    (hrun : (dirForEach dirKey fuel).run step s = (out, s'))
    : Lists view (pages.listing order) out := by
  have hroot : (read dirKey : TableProg Blob Error (Option Blob))
      = read (dirPage dirKey.key 0) := by
    rw [dirPage_root htype]
  unfold dirForEach at hrun
  rw [hroot] at hrun
  cases hshape : h.consistent.shape with
  | absent none =>
    rcases read_cases (dirPage dirKey.key 0) h.stored.inv with
      ⟨data, s₁, hread⟩ | ⟨err, s₁, hfails, hread⟩
    . rw [Prog.run_bind_of_done hread] at hrun
      obtain ⟨_, ⟨rfl, _⟩ | ⟨d, node, _, _, hsome⟩⟩ := h.stored.read hread
      . cases hrun
        exact .inl rfl
      rw [none 0] at hsome
      cases hsome
    rw [Prog.run_bind_of_fail hread] at hrun
    cases hrun
    exact .inr ⟨err, hfails, rfl⟩
  | present chained =>
    rename_i l
    have hmem : (0 : UInt64) ∈ 0 :: l := List.mem_cons_self
    obtain ⟨root, hroot⟩ := chained.exists_page hmem
    have hlisting : pages.listing (0 :: l) = root.keys ++ pages.listing l := by
      unfold Pages.listing
      rw [List.flatMap_cons, Pages.Chained.keysOf_eq hroot]
    rw [hlisting]
    refine forEach_page h.stored hroot ?_ hrun
    intro s₁ s₂ tail hpages htail
    rw [← Pages.Chained.next_eq hroot] at htail
    exact forEachFrom_run hpages chained.path chained.zero_notMem
      (fun page hpage => (chained.exists_iff page).mpr (List.mem_cons_of_mem 0 hpage)) hfuel htail

theorem Sound.absent_iff (hcalls : ∀ call ∈ calls, call.KeepsNoRoot)
    : pages 0 = none ↔ live = [] := by
  have hitems := h.consistent.items
  have hrooted := h.rooted hcalls
  cases hshape : h.consistent.shape with
  | absent none =>
    refine ⟨fun _ => ?_, fun _ => none 0⟩
    exact List.map_eq_nil_iff.mp (List.nil_perm.mp hitems)
  | present chained =>
    rename_i l
    obtain ⟨root, hroot⟩ := chained.exists_page (List.mem_cons_self : (0 : UInt64) ∈ 0 :: l)
    constructor
    . intro hnone
      rw [hnone] at hroot
      cases hroot
    rintro rfl
    have hempty : pages.listing (0 :: l) = [] := List.perm_nil.mp hitems
    rw [Pages.listing, List.flatMap_eq_nil_iff] at hempty
    have hl : l = [] := by
      rw [List.eq_nil_iff_forall_not_mem]
      intro page hpage
      exact chained.nonempty page hpage (hempty page (List.mem_cons_of_mem 0 hpage))
    subst hl
    exact absurd (hempty 0 List.mem_cons_self) (hrooted rfl)

end

section Write

variable (hwrites : view.Writes) (hapart : PagesApart dirKey.key)
variable (hlawful : Records.PagesLawful Blob)

include hwrites hapart hlawful

theorem Sound.insert (h : Sound view dirKey calls live s pages order)
    (htype : dirKey.type = .of .directoryNode) (hfresh : key ∉ live.map fst)
    (hsetup : ∀ node, (setupFunc node).page = node.page)
    (hrun : (dirInsert dirKey key preserveOrder fixDirectoryLimit setupFunc).run step s
      = (.done page, s'))
    : ∃ pages' order', Sound view dirKey (calls ++ [.insert key preserveOrder])
        (live ++ [(key, page)]) s' pages' order' := by
  obtain ⟨pages', hpages', hinserted⟩ :=
    dirInsert_done hwrites hapart hlawful htype hsetup h.stored hrun
  obtain ⟨order', hgrows⟩ := h.consistent.grows hinserted
  refine ⟨pages', order', hpages', h.consistent.insert hfresh hgrows, fun _ => hgrows.rooted, ?_, ?_⟩
  . intro hcalls page'
    obtain ⟨hbefore, hcall⟩ := forall_mem_append hcalls
    by_cases heq : page' = page
    . rw [heq]
      exact hgrows.sorted hcall
    rw [hgrows.others page' heq]
    exact h.sorted hbefore page'
  intro hcalls
  obtain ⟨hbefore, hcall⟩ := forall_mem_append hcalls
  rw [hgrows.appended hcall, h.inOrder hbefore, List.map_append]
  rfl

theorem Sound.remove (h : Sound view dirKey calls live s pages order) (hmem : (key, page) ∈ live)
    (hrun : (dirRemove dirKey page key keepRoot).run step s = (.done found, s'))
    : found = true ∧ ∃ pages' order', Sound view dirKey (calls ++ [.remove key page keepRoot])
        (live.filter (·.1 ≠ key)) s' pages' order' := by
  obtain ⟨l, horder, hchained⟩ := h.chained hmem
  have hkey := h.consistent.located _ hmem
  obtain ⟨hfound, pages', hpages', hremoved⟩ :=
    dirRemove_done hwrites hapart hlawful hchained h.stored hkey hrun
  obtain ⟨order', hconsistent', hlisting, hrooted⟩ :=
    h.consistent.remove hmem horder hchained hremoved
  refine ⟨hfound, pages', order', hpages', hconsistent', ?_, ?_, ?_⟩
  . intro hcalls
    obtain ⟨hbefore, hcall⟩ := forall_mem_append hcalls
    exact hrooted hcall (h.rooted hbefore)
  . intro hcalls page'
    obtain ⟨hbefore, _⟩ := forall_mem_append hcalls
    have hconsistent := h.consistent
    rw [Pages.keysOf_removed hconsistent hkey hremoved]
    exact (h.sorted hbefore page').filter _
  intro hcalls
  obtain ⟨hbefore, _⟩ := forall_mem_append hcalls
  rw [hlisting, h.inOrder hbefore, List.filter_map]
  rfl

theorem Calls.sound (htype : dirKey.type = .of .directoryNode) (h : Calls view dirKey calls live s)
    : ∃ pages order, Sound view dirKey calls live s pages order := by
  induction h with
  | start inv absent => exact ⟨_, _, .start inv absent⟩
  | insert before fresh setup run ih =>
    obtain ⟨pages, order, hsound⟩ := ih
    exact hsound.insert hwrites hapart hlawful htype fresh setup run
  | remove before mem run ih =>
    obtain ⟨pages, order, hsound⟩ := ih
    exact (hsound.remove hwrites hapart hlawful mem run).2
  | idle before inv same ih =>
    obtain ⟨pages, order, hsound⟩ := ih
    exact ⟨pages, order, hsound.idle inv same⟩

theorem dirChain_of_calls (htype : dirKey.type = .of .directoryNode)
    (h : Calls view dirKey calls live s)
    : ∃ pages order, HasPages view dirKey.key pages s ∧ pages.Shape order
      ∧ (pages.listing order).Perm (live.map fst)
      ∧ (∀ key page, (key, page) ∈ live → key ∈ pages.keysOf page)
      ∧ (∀ key page keepRoot found s', (key, page) ∈ live →
        (dirRemove dirKey page key keepRoot).run step s = (.done found, s') → found = true)
      ∧ ((∀ call ∈ calls, call.KeepsNoRoot) → (pages 0 = none ↔ live = []))
      ∧ ((∀ call ∈ calls, call.Preserves false) → ∀ page, (pages.keysOf page).Pairwise (· < ·))
      ∧ ∀ fuel, order.length ≤ fuel → ∀ out s',
        (dirForEach dirKey fuel).run step s = (out, s') →
        Lists view (pages.listing order) out
          ∧ ((∀ call ∈ calls, call.Preserves true) → Lists view (live.map fst) out) := by
  obtain ⟨pages, order, hsound⟩ := h.sound hwrites hapart hlawful htype
  refine ⟨pages, order, hsound.stored, hsound.consistent.shape, hsound.consistent.items, ?_, ?_,
    hsound.absent_iff, hsound.sorted, ?_⟩
  . intro key page hmem
    exact hsound.consistent.located _ hmem
  . intro key page keepRoot found s' hmem hrun
    exact (hsound.remove hwrites hapart hlawful hmem hrun).1
  intro fuel hfuel out s' hrun
  have hlists := hsound.forEach htype hfuel hrun
  refine ⟨hlists, fun hcalls => ?_⟩
  rw [hsound.inOrder hcalls] at hlists
  exact hlists

end Write

end

end

namespace Sample

inductive DirEntry where
  | directoryNode (node : DirectoryNode)
  deriving DecidableEq

instance : Codec DirEntry where
  decodeType _ := some .directoryNode
  decodes type _ := type == .directoryNode
  previousTxnID _ _ := .ok none
  previousTxnLgrSeq _ _ := 0
  setPreviousTxn _ e _ _ := some e
  account _ _ := none
  destination _ _ := none
  lowLimitIssuer _ := none
  highLimitIssuer _ := none

instance : Records DirEntry where
  parseAccountRoot _ := none
  serializeAccountRoot _ := none
  parseDirectoryNode
    | .directoryNode node => some node
  serializeDirectoryNode node _ := some (.directoryNode node)
  parseSponsorship _ := none
  serializeSponsorship _ := none
  parseEscrow _ := none
  parsePayChannel _ := none
  getOwnerNode _ := none

theorem pagesLawful_dirEntry : Records.PagesLawful DirEntry where
  parse := by
    rintro node isBookDir data ⟨⟩
    exact ⟨node, rfl, rfl⟩
  type := by
    rintro node isBookDir data ⟨⟩
    rfl

-- A hash that keeps the number of the page
abbrev pageHash : Sha512Half where
  sum data := Vector.ofFn fun i => data.getD (i.val + 34) 0

attribute [local instance] pageHash

def dirKey : Keylet where
  type := .of .directoryNode
  key := Vector.replicate 32 255

theorem getElem_dirPage (h : page ≠ 0) (i : Nat) (hi : i < 32)
    : (dirPage dirKey.key page).key[i] = (putUint64 page).getD i 0 := by
  have hdata : Keylet.indexPreimage Keylet.spaceDirNode [dirKey.key.toList, putUint64 page]
      = (putUint16 Keylet.spaceDirNode ++ dirKey.key.toList) ++ putUint64 page := by
    simp [Keylet.indexPreimage]
  have hlength : (putUint16 Keylet.spaceDirNode ++ dirKey.key.toList).length = 34 := by
    simp [putUint16]
  have hkey : (dirPage dirKey.key page).key
      = Sha512Half.sum (Keylet.indexPreimage Keylet.spaceDirNode
        [dirKey.key.toList, putUint64 page]) := by
    unfold dirPage
    rw [if_neg h]
    rfl
  simp only [hkey, hdata]
  change (Vector.ofFn _)[i] = _
  rw [Vector.getElem_ofFn, List.getD_eq_getElem?_getD,
    List.getElem?_append_right (by rw [hlength]; dsimp only; omega), hlength]
  simp [List.getD_eq_getElem?_getD]

theorem pagesApart_dirKey : PagesApart dirKey.key := by
  have hroot : ∀ page, page ≠ 0 → (dirPage dirKey.key page).key ≠ dirKey.key := by
    intro page hne heq
    have hlast := getElem_dirPage hne 31 (by omega)
    simp only [heq] at hlast
    simp [dirKey, putUint64] at hlast
  intro page page' heq
  change (dirPage dirKey.key page).key = (dirPage dirKey.key page').key at heq
  by_cases hzero : page = 0
  . by_cases hzero' : page' = 0
    . rw [hzero, hzero']
    rw [hzero] at heq
    exact absurd heq.symm (hroot page' hzero')
  by_cases hzero' : page' = 0
  . rw [hzero'] at heq
    exact absurd heq (hroot page hzero)
  have hput : putUint64 page = putUint64 page' := by
    apply List.ext_getElem
    . rfl
    intro i hi hi'
    have hbyte := getElem_dirPage hzero i (Nat.lt_trans hi (by decide : 8 < 32))
    simp only [heq, getElem_dirPage hzero'] at hbyte
    simpa [List.getD_eq_getElem?_getD, List.getElem?_eq_getElem hi, List.getElem?_eq_getElem hi']
      using hbyte.symm
  rw [← Keylet.uint64_putUint64 page, hput, Keylet.uint64_putUint64]

def emptyLedger : Ledger DirEntry := .ofEntries []

abbrev view : MapView DirEntry (Ledger DirEntry) := Ledger.mapView fun _ => none

def item (n : UInt8) : Hash256 := Vector.replicate 32 n

def insertion (n : UInt8) : TableProg DirEntry Error UInt64 :=
  dirInsert dirKey (item n) true true fun node => node

def insertItem (n : UInt8) (ledger : Ledger DirEntry) : Ledger DirEntry :=
  ((insertion n).run step ledger).2

def removeItem (n : UInt8) (ledger : Ledger DirEntry) : Ledger DirEntry :=
  ((dirRemove dirKey 0 (item n) false).run step ledger).2

-- Two items go in, the first one comes out.
theorem calls_sample
    : Calls view dirKey [.insert (item 2) true, .insert (item 1) true, .remove (item 2) 0 false]
        [(item 1, 0)] (removeItem 2 (insertItem 1 (insertItem 2 emptyLedger))) := by
  have hstart : Calls view dirKey [] [] emptyLedger := .start rfl fun _ => rfl
  have hdone : ((insertion 2).run step emptyLedger).1 = .done 0 := by
    decide +kernel
  have hdone' : ((insertion 1).run step (insertItem 2 emptyLedger)).1 = .done 0 := by
    decide +kernel
  have hfirst : Calls view dirKey [.insert (item 2) true] [(item 2, 0)] (insertItem 2 emptyLedger) :=
    hstart.insert (by simp) (fun _ => rfl) (Prod.ext hdone rfl)
  have hsecond : Calls view dirKey [.insert (item 2) true, .insert (item 1) true]
      [(item 2, 0), (item 1, 0)] (insertItem 1 (insertItem 2 emptyLedger)) :=
    hfirst.insert (by decide) (fun _ => rfl) (Prod.ext hdone' rfl)
  have hmem : (item 2, (0 : UInt64)) ∈ [(item 2, 0), (item 1, 0)] := List.mem_cons_self
  have hremove : ((dirRemove dirKey 0 (item 2) false).run step
      (insertItem 1 (insertItem 2 emptyLedger))).1 = .done true := by
    decide +kernel
  exact hsecond.remove hmem (Prod.ext hremove rfl)

theorem dirChain_sample
    : view.Writes ∧ PagesApart dirKey.key ∧ Records.PagesLawful DirEntry
      ∧ ∃ pages order,
        HasPages view dirKey.key pages (removeItem 2 (insertItem 1 (insertItem 2 emptyLedger)))
        ∧ pages.Shape order ∧ (pages.listing order).Perm [item 1] := by
  refine ⟨Ledger.writes_mapView _, pagesApart_dirKey, pagesLawful_dirEntry, ?_⟩
  obtain ⟨pages, order, hpages, hshape, hitems, _⟩ := dirChain_of_calls (Ledger.writes_mapView _)
    pagesApart_dirKey pagesLawful_dirEntry rfl calls_sample
  exact ⟨pages, order, hpages, hshape, hitems⟩

end Sample

end State
