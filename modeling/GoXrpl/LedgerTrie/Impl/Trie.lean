import GoXrpl.Basic
import GoXrpl.Search.Bisect
import Mathlib.Algebra.GroupWithZero.Nat
import Mathlib.Data.List.AList
import Mathlib.Data.List.Perm.Basic
import GoXrpl.Search.TopTwo

/-!
This module contains the ledgers a trie is built from, the trie itself and the walk to the preferred
ledger. Nodes live in a heap, the pointers between them are addresses.
-/

namespace LedgerTrie

abbrev LedgerID := Hash256

structure Ledger where
  id : LedgerID
  seq : Nat
  minSeq : Nat
  ancestor : Nat → LedgerID

def mismatch (a b : Ledger) : Nat :=
  let upper := min b.seq a.seq
  let lower := if b.minSeq > a.minSeq then b.minSeq else a.minSeq
  if lower > upper then
    1
  else
    let low := Search.bisect (fun mid => a.ancestor mid == b.ancestor mid)
      (upper + 1 - lower) lower (upper + 1)
    if low = lower then 1 else low

structure SpanTip where
  seq : Nat
  id : LedgerID
  deriving DecidableEq, Repr

structure Span where
  start : Nat
  stop : Nat
  ledger : Ledger

def newSpanFromLedger (l : Ledger) : Span :=
  { start := 0, stop := l.seq + 1, ledger := l }

namespace Span

def clamp (s : Span) (val : Nat) : Nat :=
  if val < s.start then
    s.start
  else if val > s.stop then
    s.stop
  else
    val

def sub (s : Span) (lo hi : Nat) : Option Span :=
  let nf := s.clamp lo
  let nt := s.clamp hi
  if nf < nt then
    some { start := nf, stop := nt, ledger := s.ledger }
  else
    none

def fromSeq (s : Span) (spot : Nat) : Option Span := s.sub spot s.stop

def before (s : Span) (spot : Nat) : Option Span := s.sub s.start spot

def startID (s : Span) : LedgerID := s.ledger.ancestor s.start

def diff (s : Span) (o : Ledger) : Nat := s.clamp (mismatch s.ledger o)

def tip (s : Span) : SpanTip :=
  { seq := s.stop - 1, id := s.ledger.ancestor (s.stop - 1) }

end Span

def mergeSpans (a b : Span) : Span :=
  let lo := min b.start a.start
  if a.stop < b.stop then
    { start := lo, stop := b.stop, ledger := b.ledger }
  else
    { start := lo, stop := a.stop, ledger := a.ledger }

abbrev Addr := Nat

structure Node where
  s : Span
  tipSupport : Nat
  branchSupport : Nat
  children : List Addr
  parent : Option Addr

def newEmptyNode (genesis : Ledger) : Node :=
  {
    s := { start := 0, stop := 1, ledger := genesis }
    tipSupport := 0
    branchSupport := 0
    children := []
    parent := none
  }

def newNodeFromSpan (s : Span) : Node :=
  { s, tipSupport := 0, branchSupport := 0, children := [], parent := none }

-- The last child takes the place of the erased one.
def eraseChild (children : List Addr) (child : Addr) : List Addr :=
  match children.findIdx? (· == child) with
  | some i => (children.set i (children.getLastD child)).dropLast
  | none => children

def chain (nodes : Addr → Node) (cur : Addr) : List Addr :=
  go ((nodes cur).s.start + 1) (some cur)
where
  go : Nat → Option Addr → List Addr
    | 0, _ => []
    | _, none => []
    | fuel + 1, some cur => cur :: go fuel (nodes cur).parent

-- `bytes.Compare(a, b) > 0`
def ledgerIDGreater (a b : LedgerID) : Bool := decide (b.toList < a.toList)

def nodeOutranks (a b : Node) : Bool :=
  if a.branchSupport ≠ b.branchSupport then
    a.branchSupport > b.branchSupport
  else
    ledgerIDGreater a.s.startID b.s.startID

structure Trie where
  nodes : Addr → Node
  size : Nat
  root : Addr
  seqSupport : AList (fun _ : Nat => Nat)
  seqKeys : List Nat

namespace Trie

def new (genesis : Ledger) : Except String Trie :=
  if genesis.seq ≠ 0 then
    .error "ledgertrie: genesis sequence must be zero"
  else
    .ok {
      nodes := fun _ => newEmptyNode genesis
      size := 1
      root := 0
      seqSupport := ∅
      seqKeys := []
    }

def modify (t : Trie) (a : Addr) (f : Node → Node) : Trie :=
  { t with nodes := Function.update t.nodes a (f (t.nodes a)) }

def alloc (t : Trie) (n : Node) : Trie :=
  { t with nodes := Function.update t.nodes t.size n, size := t.size + 1 }

def empty (t : Trie) : Bool := (t.nodes t.root).branchSupport == 0

def find (t : Trie) (l : Ledger) : Addr × Nat :=
  go (l.seq + 1) t.root ((t.nodes t.root).s.diff l)
where
  go : Nat → Addr → Nat → Addr × Nat
    | 0, curr, pos => (curr, pos)
    | fuel + 1, curr, pos =>
      if pos = (t.nodes curr).s.stop then
        match (t.nodes curr).children.find? (fun child => (t.nodes child).s.diff l > pos) with
        | some child => go fuel child ((t.nodes child).s.diff l)
        | none => (curr, pos)
      else
        (curr, pos)

def findByIDWalk (nodes : Addr → Node) (id : LedgerID) : Nat → Addr → Option Addr
  | 0, _ => none
  | fuel + 1, curr =>
    if (nodes curr).s.tip.id = id then
      some curr
    else
      (nodes curr).children.findSome? (fun child => findByIDWalk nodes id fuel child)

def findByLedgerID (t : Trie) (l : Ledger) : Option Addr :=
  findByIDWalk t.nodes l.id t.size t.root

-- `slices.BinarySearch`: the position of `seq` in the sorted keys.
def seqIndex (seqKeys : List Nat) (seq : Nat) : Nat :=
  (seqKeys.takeWhile (· < seq)).length

def seqSupportAdd (t : Trie) (seq delta : Nat) : Except String Trie :=
  let current := (t.seqSupport.lookup seq).getD 0
  if current > maxUint32 - delta then
    .error "ledgertrie: sequence support overflow"
  else
    let seqKeys :=
      if (t.seqSupport.lookup seq).isNone then
        t.seqKeys.insertIdx (seqIndex t.seqKeys seq) seq
      else
        t.seqKeys
    .ok { t with seqSupport := t.seqSupport.insert seq (add32 current delta), seqKeys }

def seqSupportSub (t : Trie) (seq delta : Nat) : Except String Trie :=
  match t.seqSupport.lookup seq with
  | none => .error "ledgertrie: seqSupport invariant violation"
  | some cur =>
    if cur < delta then
      .error "ledgertrie: seqSupport invariant violation"
    else if cur - delta = 0 then
      let idx := seqIndex t.seqKeys seq
      let seqKeys := if t.seqKeys[idx]? = some seq then t.seqKeys.eraseIdx idx else t.seqKeys
      .ok { t with seqSupport := t.seqSupport.erase seq, seqKeys }
    else
      .ok { t with seqSupport := t.seqSupport.insert seq (cur - delta) }

def insertGuard (t : Trie) (loc : Addr) (atTip : Bool) (seq count : Nat) : Except String Unit :=
  if atTip ∧ (t.nodes loc).tipSupport > maxUint32 - count then
    .error "ledgertrie: tip support overflow"
  else if (chain t.nodes loc).any (fun cur => (t.nodes cur).branchSupport > maxUint32 - count) then
    .error "ledgertrie: branch support overflow"
  else if (t.seqSupport.lookup seq).getD 0 > maxUint32 - count then
    .error "ledgertrie: sequence support overflow"
  else
    .ok ()

def splitNode (t : Trie) (loc : Addr) (pfx oldSuffix : Span) : Trie :=
  let n := t.nodes loc
  let sfx := t.size
  let t := t.alloc {
    s := oldSuffix
    tipSupport := n.tipSupport
    branchSupport := n.branchSupport
    children := n.children
    parent := some loc
  }
  let t := n.children.foldl (fun t c => t.modify c (fun c => { c with parent := some sfx })) t
  t.modify loc (fun n => { n with s := pfx, tipSupport := 0, children := [sfx] })

def addChild (t : Trie) (loc : Addr) (newSuffix : Span) : Trie :=
  let nn := t.size
  let t := t.alloc { newNodeFromSpan newSuffix with parent := some loc }
  t.modify loc (fun n => { n with children := n.children ++ [nn] })

def changeSupport (t : Trie) (loc : Addr) (f : Nat → Nat) : Trie :=
  let t := t.modify loc (fun n => { n with tipSupport := f n.tipSupport })
  (chain t.nodes loc).foldl
    (fun t cur => t.modify cur (fun n => { n with branchSupport := f n.branchSupport })) t

def increase (t : Trie) (incNode : Addr) (count : Nat) : Trie :=
  t.changeSupport incNode (fun support => add32 support count)

def cutOldSuffix (t : Trie) (loc : Addr) (oldSuffix pfx : Option Span) : Except String Trie :=
  match oldSuffix, pfx with
  | none, _ => .ok t
  | some _, none => .error "ledgertrie: Insert: prefix missing despite oldSuffix"
  | some oldSuffix, some pfx => .ok (t.splitNode loc pfx oldSuffix)

def addNewSuffix (t : Trie) (loc : Addr) (newSuffix : Option Span) : Addr × Trie :=
  match newSuffix with
  | none => (loc, t)
  | some newSuffix => (t.size, t.addChild loc newSuffix)

def insert (t : Trie) (l : Ledger) (count : Nat) : Except String Trie := do
  if l.seq = maxUint32 then
    .error "ledgertrie: ledger sequence cannot be represented"
  else if count = 0 then
    .ok t
  else
    let (loc, diffSeq) := t.find l
    let pfx := (t.nodes loc).s.before diffSeq
    let oldSuffix := (t.nodes loc).s.fromSeq diffSeq
    let newSuffix := (newSpanFromLedger l).fromSeq diffSeq
    insertGuard t loc (oldSuffix.isNone && newSuffix.isNone) l.seq count
    let t ← t.cutOldSuffix loc oldSuffix pfx
    let (incNode, t) := t.addNewSuffix loc newSuffix
    (t.increase incNode count).seqSupportAdd l.seq count

def decrease (t : Trie) (loc : Addr) (count : Nat) : Trie :=
  t.changeSupport loc (fun support => sub32 support count)

def compact (t : Trie) (loc : Addr) : Except String Trie :=
  go ((t.nodes loc).s.start + 1) t loc
where
  go : Nat → Trie → Addr → Except String Trie
    | 0, t, _ => .ok t
    | fuel + 1, t, loc =>
      let n := t.nodes loc
      if n.tipSupport = 0 ∧ loc ≠ t.root then
        match n.parent, n.children with
        | none, _ => .error "invalid memory address or nil pointer dereference"
        | some parent, [] =>
          let t := t.modify parent (fun p => { p with children := eraseChild p.children loc })
          go fuel t parent
        | some parent, [child] =>
          let t := t.modify child
            (fun c => { c with s := mergeSpans n.s c.s, parent := some parent })
          let t := t.modify parent
            (fun p => { p with children := eraseChild (p.children ++ [child]) loc })
          go fuel t parent
        | some _, _ => .ok t
      else
        .ok t

def remove (t : Trie) (l : Ledger) (count : Nat) : Except String (Trie × Bool) := do
  match t.findByLedgerID l with
  | none => .ok (t, false)
  | some loc =>
    if (t.nodes loc).tipSupport = 0 then
      .ok (t, false)
    else
      let count := if count > (t.nodes loc).tipSupport then (t.nodes loc).tipSupport else count
      if l.seq ≠ (t.nodes loc).s.stop - 1 then
        .error "ledgertrie: ledger sequence mismatch"
      else if (t.seqSupport.lookup l.seq).getD 0 < count ∨ (t.seqSupport.lookup l.seq).isNone then
        .error "ledgertrie: seqSupport invariant violation"
      else
        let t ← (t.decrease loc count).seqSupportSub l.seq count
        let t ← t.compact loc
        .ok (t, true)

def tipSupport (t : Trie) (l : Ledger) : Nat :=
  match t.findByLedgerID l with
  | some loc => (t.nodes loc).tipSupport
  | none => 0

def branchSupport (t : Trie) (l : Ledger) : Nat :=
  match t.findByLedgerID l with
  | some loc => (t.nodes loc).branchSupport
  | none =>
    let (candidate, diffSeq) := t.find l
    if diffSeq > l.seq ∧ l.seq < (t.nodes candidate).s.stop then
      (t.nodes candidate).branchSupport
    else
      0

def checkSeqKeys (seqSupport : AList (fun _ : Nat => Nat)) : Option Nat → List Nat → Bool
  | _, [] => true
  | prev, seq :: seqKeys =>
    prev.all (· < seq) && (seqSupport.lookup seq).any (· ≠ 0)
      && checkSeqKeys seqSupport (some seq) seqKeys

/--
The walk of `CheckInvariants` over all nodes.
-/
def checkNodes (nodes : Addr → Node) (root : Addr)
    : Nat → List Addr → AList (fun _ : Nat => Nat) → Option (AList (fun _ : Nat => Nat))
  | _, [], expected => some expected
  | 0, _ :: _, _ => none
  | fuel + 1, curr :: stack, expected =>
    let n := nodes curr
    let seq := n.s.stop - 1
    let sum := (expected.lookup seq).getD 0 + n.tipSupport
    let support := n.tipSupport + (n.children.map (fun c => (nodes c).branchSupport)).sum
    if n.s.start ≥ n.s.stop then
      none
    else if curr ≠ root ∧ n.tipSupport = 0 ∧ n.children.length < 2 then
      none
    else if n.tipSupport ≠ 0 ∧ sum > maxUint32 then
      none
    else if ¬n.children.all (fun c => (nodes c).parent = some curr) then
      none
    else if support > maxUint32 ∨ support ≠ n.branchSupport then
      none
    else
      let expected := if n.tipSupport ≠ 0 then expected.insert seq sum else expected
      checkNodes nodes root fuel (n.children.reverse ++ stack) expected

def checkInvariants (t : Trie) : Bool :=
  if (t.nodes t.root).parent.isSome then
    false
  else if t.seqKeys.length ≠ t.seqSupport.keys.length then
    false
  else if ¬checkSeqKeys t.seqSupport none t.seqKeys then
    false
  else
    match checkNodes t.nodes t.root t.size [t.root] ∅ with
    | none => false
    | some expected =>
      expected.keys.length == t.seqSupport.keys.length
        && expected.keys.all (fun k => (t.seqSupport.lookup k).getD 0 == (expected.lookup k).getD 0)

def absorb (seqSupport : AList (fun _ : Nat => Nat)) (floor : Nat)
    : List Nat → Nat → List Nat × Nat
  | [], uncommitted => ([], uncommitted)
  | key :: keys, uncommitted =>
    if key < floor then
      absorb seqSupport floor keys (uncommitted + (seqSupport.lookup key).getD 0)
    else
      (key :: keys, uncommitted)

def advance (seqSupport : AList (fun _ : Nat => Nat)) (branchSupport stop : Nat)
    : List Nat → Nat → Nat → Nat × List Nat × Nat
  | [], nextSeq, uncommitted =>
    if nextSeq < stop ∧ branchSupport > uncommitted then
      (stop, [], uncommitted)
    else
      (nextSeq, [], uncommitted)
  | key :: keys, nextSeq, uncommitted =>
    if nextSeq < stop ∧ branchSupport > uncommitted then
      if key < stop then
        advance seqSupport branchSupport stop keys (key + 1)
          (uncommitted + (seqSupport.lookup key).getD 0)
      else
        (stop, key :: keys, uncommitted)
    else
      (nextSeq, key :: keys, uncommitted)

def bestAndSecond (nodes : Addr → Node) (children : List Addr) : Nat × Nat :=
  let child := fun i => nodes (children.getD i 0)
  Search.topTwo (fun i j => nodeOutranks (child i) (child j)) children.length

def promote (children : List Addr) (bestIndex : Nat) (second : Addr) : List Addr :=
  let children := if bestIndex ≠ 0 then children.swap 0 bestIndex else children
  match (children.drop 1).findIdx? (· == second) with
  | some i => children.swap 1 (i + 1)
  | none => children

def pickBest (nodes : Addr → Node) (children : List Addr) : Option (Addr × Nat) × List Addr :=
  match children with
  | [] => (none, [])
  | [best] => (some (best, (nodes best).branchSupport), [best])
  | children =>
    let (bestIndex, secondIndex) := bestAndSecond nodes children
    let best := children.getD bestIndex 0
    let second := children.getD secondIndex 0
    -- `second` does not outrank `best`, so the difference does not wrap around.
    let margin := (nodes best).branchSupport - (nodes second).branchSupport
    let margin :=
      if ledgerIDGreater (nodes best).s.startID (nodes second).s.startID then margin + 1 else margin
    (some (best, margin), promote children bestIndex second)

def getPreferred (t : Trie) (largestIssued : Nat) : Except String (Trie × Option SpanTip) :=
  if t.empty then
    .ok (t, none)
  else
    go t.size t t.root t.seqKeys 0
where
  go : Nat → Trie → Addr → List Nat → Nat → Except String (Trie × Option SpanTip)
    | 0, _, _, _, _ => .error "getPreferred: out of fuel"
    | fuel + 1, t, curr, keys, uncommitted =>
      let n := t.nodes curr
      let (keys, uncommitted) :=
        absorb t.seqSupport (max largestIssued (n.s.start + 1)) keys uncommitted
      let (nextSeq, keys, uncommitted) :=
        advance t.seqSupport n.branchSupport n.s.stop keys (n.s.start + 1) uncommitted
      if nextSeq < n.s.stop then
        match n.s.before nextSeq with
        | none => .error "ledgertrie: GetPreferred: before(nextSeq) yielded empty span"
        | some sub => .ok (t, some sub.tip)
      else
        let (best, children) := pickBest t.nodes n.children
        let t := t.modify curr (fun n => { n with children })
        match best with
        | none => .ok (t, some n.s.tip)
        | some (best, margin) =>
          if margin > uncommitted ∨ uncommitted = 0 then
            go fuel t best keys uncommitted
          else
            .ok (t, some n.s.tip)

end Trie

end LedgerTrie
