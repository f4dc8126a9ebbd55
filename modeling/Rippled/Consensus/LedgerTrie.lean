import Rippled.Lib.CountMap
import Rippled.Lib.Rose

/-!
# The ledger trie

`LedgerTrie` (`LedgerTrie.h`) keeps the support of ledgers in a compressed trie of ledger ancestry. A node owns
its children and points back to its parent: a node is a `Rose` of `Cell`s, where `self` stands for the node's
address and `parent` for the raw pointer. A `Node*` used for writing is a `Cursor`; following `parent` succeeds
only where it holds the address of the enclosing node.

Support counts are natural numbers; the source's `uint32_t` counters do not overflow.
-/

namespace Rippled.Consensus

open Lib

/-- What the trie uses of a ledger: its sequence number, `operator[]`, its id, the genesis ledger and `mismatch`. -/
class Ledger (L : Type) (ID : outParam Type) where
  seq : L → Nat
  ancestor : L → Nat → ID
  id : L → ID
  genesis : L
  mismatch : L → L → Nat

variable {L ID : Type} [Ledger L ID]

structure SpanTip (L ID : Type) where
  seq : Nat
  id : ID
  ledger : L

/-- The half-open interval `[start, end_)` of a ledger's ancestry; a span is never empty. -/
structure Span (L : Type) where
  start : Nat
  end_ : Nat
  ledger : L
  start_lt_end : start < end_

namespace Span

/-- The default span holds the genesis ledger only. -/
def genesis : Span L := ⟨0, 1, Ledger.genesis, Nat.one_pos⟩

def ofLedger (l : L) : Span L := ⟨0, Ledger.seq l + 1, l, Nat.succ_pos _⟩

def startID (s : Span L) : ID := Ledger.ancestor s.ledger s.start

def clamp (s : Span L) (val : Nat) : Nat := min (max s.start val) s.end_

/-- The part of the span in `[from, to)`, or none if it is empty. -/
def sub (s : Span L) (first last : Nat) : Option (Span L) :=
  if h : s.clamp first < s.clamp last then some ⟨s.clamp first, s.clamp last, s.ledger, h⟩ else none

/-- `from(spot)`: the part of the span in `[spot, end)`. -/
def fromSpot (s : Span L) (spot : Nat) : Option (Span L) := s.sub spot s.end_

def before (s : Span L) (spot : Nat) : Option (Span L) := s.sub s.start spot

/-- The sequence number of the first possible difference between the span and a ledger. -/
def diff (s : Span L) (o : L) : Nat := s.clamp (Ledger.mismatch s.ledger o)

def tip (s : Span L) : SpanTip L ID := ⟨s.end_ - 1, Ledger.ancestor s.ledger (s.end_ - 1), s.ledger⟩

/-- The combined span, with the ledger of the higher one. -/
def merge (a b : Span L) : Span L :=
  if a.end_ < b.end_ then ⟨min a.start b.start, b.end_, b.ledger, (min_le_right _ _).trans_lt b.start_lt_end⟩
  else ⟨min a.start b.start, a.end_, a.ledger, (min_le_left _ _).trans_lt a.start_lt_end⟩

end Span

/-- The fields of a node beside its children. -/
structure Cell (L : Type) where
  self : Nat
  span : Span L
  tipSupport : Nat
  branchSupport : Nat
  parent : Option Nat

abbrev Node (L : Type) := Rose (Cell L)

/-- The nodes above a node, nearest first. -/
abbrev Above (L : Type) := List (Rose.Frame (Cell L))

structure Cursor (L : Type) where
  node : Node L
  above : Above L

structure LedgerTrie (L : Type) where
  root : Node L
  seqSupport : List (Nat × Nat)
  /-- The next unused address. -/
  next : Nat

namespace LedgerTrie

/-- The trie of the default constructor: a root for the genesis ledger without support. -/
def init : LedgerTrie L where
  root := .node { self := 0, span := .genesis, tipSupport := 0, branchSupport := 0, parent := none } []
  seqSupport := []
  next := 1

/-! ## Lookup -/

mutual

/-- The loop of `find`, at a node that matches the ledger up to `pos`. -/
def findFrom (ledger : L) (above : Above L) (pos : Nat) : Node L → Cursor L × Nat
  | .node v cs =>
    if pos = v.span.end_ then (findChild ledger above v pos [] cs).getD (⟨.node v cs, above⟩, pos)
    else (⟨.node v cs, above⟩, pos)

/-- The first child with a longer match than `pos`, searched from there on. -/
def findChild (ledger : L) (above : Above L) (v : Cell L) (pos : Nat) (left : List (Node L)) :
    List (Node L) → Option (Cursor L × Nat)
  | [] => none
  | c :: cs =>
    if pos < c.val.span.diff ledger then
      some (findFrom ledger (⟨v, left, cs⟩ :: above) (c.val.span.diff ledger) c)
    else findChild ledger above v pos (left ++ [c]) cs

end

/-- The node with the longest common ancestry with a ledger, and the sequence number of the first difference. -/
def find (t : LedgerTrie L) (ledger : L) : Cursor L × Nat :=
  findFrom ledger [] (t.root.val.span.diff ledger) t.root

section ById
variable [DecidableEq ID]

mutual

/-- The node below `parent` whose tip has the given id. -/
def findTip (i : ID) (above : Above L) : Node L → Option (Cursor L)
  | .node v cs => if i = v.span.tip.id then some ⟨.node v cs, above⟩ else findTipChild i above v [] cs

def findTipChild (i : ID) (above : Above L) (v : Cell L) (left : List (Node L)) : List (Node L) → Option (Cursor L)
  | [] => none
  | c :: cs => (findTip i (⟨v, left, cs⟩ :: above) c).or (findTipChild i above v (left ++ [c]) cs)

end

def findByLedgerID (t : LedgerTrie L) (ledger : L) : Option (Cursor L) := findTip (Ledger.id ledger) [] t.root

end ById

/-! ## Insertion -/

/-- Apply `f` to the node a parent pointer leads to and on, up to the node without a parent. -/
def walkUp (f : Cell L → Cell L) : Option Nat → Above L → Option (Above L)
  | none, fs => some fs
  | some _, [] => none
  | some p, fr :: fs =>
    if fr.val.self = p then (walkUp f fr.val.parent fs).map ({ fr with val := f fr.val } :: ·) else none

/-- Apply `f` to the node at the cursor and to the nodes its parent pointers lead to. -/
def updateUp (f : Cell L → Cell L) (c : Cursor L) : Option (Cursor L) :=
  (walkUp f c.node.val.parent c.above).map fun above => ⟨.node (f c.node.val) c.node.children, above⟩

def setParent (p : Nat) : Node L → Node L
  | .node v cs => .node { v with parent := some p } cs

/-- Truncate a node to a prefix of its span; a new node takes over the rest, the support and the children. -/
def split (next : Nat) (pre oldSuffix : Span L) : Node L → Node L
  | .node v cs =>
    .node { v with span := pre, tipSupport := 0 }
      [.node ⟨next, oldSuffix, v.tipSupport, v.branchSupport, some v.self⟩ (cs.map (setParent next))]

/-- A cursor to a new last child of the node at the cursor. -/
def pushChild (next : Nat) (newSuffix : Span L) (c : Cursor L) : Cursor L where
  node := .node ⟨next, newSuffix, 0, 0, some c.node.val.self⟩ []
  above := ⟨c.node.val, c.node.children, []⟩ :: c.above

def addTip (count : Nat) (n : Node L) : Node L :=
  .node { n.val with tipSupport := n.val.tipSupport + count } n.children

def addBranch (count : Nat) (v : Cell L) : Cell L := { v with branchSupport := v.branchSupport + count }

/-- Make the node at the cursor end where the ledger departs from it; fails where the source would
dereference an empty `prefix`. -/
def makeRoom (next : Nat) (diffSeq : Nat) (loc : Cursor L) : Option (Cursor L × Nat) :=
  match loc.node.val.span.fromSpot diffSeq with
  | none => some (loc, next)
  | some oldSuffix =>
    (loc.node.val.span.before diffSeq).map fun pre => ({ loc with node := split next pre oldSuffix loc.node }, next + 1)

/-- The node that gets the support: the place found, or a new child for the rest of the ledger. -/
def incNode (next : Nat) (newSuffix : Option (Span L)) (loc : Cursor L) : Cursor L × Nat :=
  match newSuffix with
  | none => (loc, next)
  | some s => (pushChild next s loc, next + 1)

def insert (t : LedgerTrie L) (ledger : L) (count : Nat) : Option (LedgerTrie L) := do
  let (loc, diffSeq) := t.find ledger
  let (loc, next) ← makeRoom t.next diffSeq loc
  let (inc, next) := incNode next ((Span.ofLedger ledger).fromSpot diffSeq) loc
  let inc ← updateUp (addBranch count) { inc with node := addTip count inc.node }
  return { root := Rose.rebuild inc.above inc.node
           seqSupport := CountMap.add t.seqSupport (Ledger.seq ledger) count
           next := next }

/-! ## Removal -/

def subTip (count : Nat) (n : Node L) : Node L :=
  .node { n.val with tipSupport := n.val.tipSupport - count } n.children

def subBranch (count : Nat) (v : Cell L) : Cell L := { v with branchSupport := v.branchSupport - count }

/-- `erase(child)`: the last child takes the place of the erased one. -/
def eraseSlot (left right : List (Node L)) : List (Node L) :=
  match right.getLast? with
  | none => left
  | some back => left ++ back :: right.dropLast

/-- A single child that takes over the span of its parent `loc`. -/
def absorb (loc : Cell L) (p : Nat) : Node L → Node L
  | .node v cs => .node { v with span := loc.span.merge v.span, parent := some p } cs

/-- The last loop of `remove`: drop or merge nodes without tip support, upwards from `loc`. -/
def collapse (rootSelf : Nat) : Above L → Node L → Option (Node L)
  | [], loc => if loc.val.tipSupport = 0 ∧ loc.val.self ≠ rootSelf then none else some loc
  | fr :: fs, loc =>
    if loc.val.tipSupport = 0 ∧ loc.val.self ≠ rootSelf then
      if loc.val.parent = some fr.val.self then
        match loc.children with
        | [] => collapse rootSelf fs (.node fr.val (eraseSlot fr.left fr.right))
        | [child] =>
          collapse rootSelf fs (.node fr.val (eraseSlot fr.left (fr.right ++ [absorb loc.val fr.val.self child])))
        | _ :: _ :: _ => some (Rose.rebuild (fr :: fs) loc)
      else none
    else some (Rose.rebuild (fr :: fs) loc)

section ById
variable [DecidableEq ID]

/-- `remove(ledger, count)`, with whether support was removed. -/
def remove (t : LedgerTrie L) (ledger : L) (count : Nat) : Option (Bool × LedgerTrie L) :=
  match t.findByLedgerID ledger with
  | none => some (false, t)
  | some loc =>
    if loc.node.val.tipSupport = 0 then some (false, t)
    else do
      let count := min count loc.node.val.tipSupport
      let loc ← updateUp (subBranch count) { loc with node := subTip count loc.node }
      let root ← collapse t.root.val.self loc.above loc.node
      return (true, { t with root := root, seqSupport := CountMap.sub t.seqSupport (Ledger.seq ledger) count })

/-! ## Queries -/

def tipSupport (t : LedgerTrie L) (ledger : L) : Nat :=
  match t.findByLedgerID ledger with
  | some loc => loc.node.val.tipSupport
  | none => 0

def branchSupport (t : LedgerTrie L) (ledger : L) : Nat :=
  match t.findByLedgerID ledger with
  | some loc => loc.node.val.branchSupport
  | none =>
    -- the ledger may still be a proper prefix of a span
    let (loc, diffSeq) := t.find ledger
    if Ledger.seq ledger < diffSeq ∧ Ledger.seq ledger < loc.node.val.span.end_ then loc.node.val.branchSupport
    else 0

end ById

def empty (t : LedgerTrie L) : Bool := t.root.val.branchSupport = 0

/-- The stack loop of `checkInvariants`: the expected `seqSupport`, or none where it returns false. -/
def checkNodes (rootSelf : Nat) : Nat → List (Node L) → List (Nat × Nat) → Option (List (Nat × Nat))
  | _, [], expected => some expected
  | 0, _ :: _, _ => none
  | fuel + 1, curr :: nodes, expected =>
    if curr.val.self ≠ rootSelf ∧ curr.val.tipSupport = 0 ∧ curr.children.length < 2 then none
    else if ∃ child ∈ curr.children, child.val.parent ≠ some curr.val.self then none
    else if curr.val.tipSupport + (curr.children.map (·.val.branchSupport)).sum ≠ curr.val.branchSupport then none
    else
      checkNodes rootSelf fuel (curr.children.reverse ++ nodes)
        (if curr.val.tipSupport = 0 then expected
          else CountMap.add expected (curr.val.span.end_ - 1) curr.val.tipSupport)

def checkInvariants (t : LedgerTrie L) : Bool :=
  checkNodes t.root.val.self t.root.size [t.root] [] = some t.seqSupport

/-! ## The preferred ledger -/

/-- The loop of `getPreferred` along a span: advance `nextSeq` while the branch support exceeds the uncommitted
support, jumping to the next change of the support. -/
def alongSpan (end_ branch : Nat) : Nat → Nat → List (Nat × Nat) → Nat × Nat × List (Nat × Nat)
  | nextSeq, uncommitted, [] =>
    if nextSeq < end_ ∧ uncommitted < branch then (end_, uncommitted, []) else (nextSeq, uncommitted, [])
  | nextSeq, uncommitted, (k, c) :: it =>
    if nextSeq < end_ ∧ uncommitted < branch then
      if k < end_ then alongSpan end_ branch (k + 1) (uncommitted + c) it
      else (end_, uncommitted, (k, c) :: it)
    else (nextSeq, uncommitted, (k, c) :: it)

section Preferred
variable [LinearOrder ID]

/-- The order of the children: larger branch support first, ties by larger starting id. -/
def sortsBefore (a b : Node L) : Bool :=
  b.val.branchSupport < a.val.branchSupport ∨
    (b.val.branchSupport = a.val.branchSupport ∧ b.val.span.startID < a.val.span.startID)

/-- Bring the first node in the order to the front. -/
def selectFirst : Node L → List (Node L) → Node L × List (Node L)
  | c, [] => (c, [])
  | c, d :: ds =>
    if sortsBefore d c then ((selectFirst d ds).1, c :: (selectFirst d ds).2)
    else ((selectFirst c ds).1, d :: (selectFirst c ds).2)

/-- `partial_sort` of the first two places. The order it leaves behind them is unspecified. -/
def partialSortTwo : List (Node L) → List (Node L)
  | [] => []
  | c :: cs =>
    match selectFirst c cs with
    | (best, []) => [best]
    | (best, d :: ds) => best :: (selectFirst d ds).1 :: (selectFirst d ds).2

/-- The best child and the margin by which it leads. -/
def bestChild (children : List (Node L)) : Option (Node L × Nat) :=
  match children with
  | [] => none
  | [c] => some (c, c.val.branchSupport)
  | cs =>
    match partialSortTwo cs with
    | best :: second :: _ =>
      some (best, best.val.branchSupport - second.val.branchSupport +
        if second.val.span.startID < best.val.span.startID then 1 else 0)
    | _ => none

/-- The outer loop of `getPreferred`. -/
def preferredFrom (largestIssued : Nat) : Nat → Node L → Nat → List (Nat × Nat) → Option (SpanTip L ID)
  | 0, _, _, _ => none
  | fuel + 1, curr, uncommitted, it =>
    let (uncommitted, it) := CountMap.skipTo (max (curr.val.span.start + 1) largestIssued) uncommitted it
    let (nextSeq, uncommitted, it) :=
      alongSpan curr.val.span.end_ curr.val.branchSupport (curr.val.span.start + 1) uncommitted it
    if nextSeq < curr.val.span.end_ then (curr.val.span.before nextSeq).map Span.tip
    else
      match bestChild curr.children with
      | some (best, margin) =>
        if uncommitted < margin ∨ uncommitted = 0 then preferredFrom largestIssued fuel best uncommitted it
        else some curr.val.span.tip
      | none => some curr.val.span.tip

/-- `getPreferred(largestIssued)`. It also sorts the children of the nodes it visits. -/
def getPreferred (t : LedgerTrie L) (largestIssued : Nat) : Option (SpanTip L ID) :=
  if t.empty then none else preferredFrom largestIssued t.root.size t.root 0 t.seqSupport

end Preferred

end LedgerTrie

end Rippled.Consensus
